import LogSetup.Proofs.Text.Visible
import LogSetup.Settings.Basic

/-!
# Conventional names of settings

A setting may be asked for under its conventional name, of which the conventional name is then taken
again. That second scan finds a capital wherever the first one found a small letter, and splits it
from a digit before it. So a conventional name stays as it is exactly when no digit of the name that
it comes from stands directly before a small letter, and only such a name is looked up once.

## Main definitions

- `DigitsEndWords` : no digit of a name stands directly before a small letter
- `WordRole` : what a character does in the words of a name

## Main statements

- `Environment.setting?_eq_text?_iff` : which settings are looked up under one name only
- `conventional_name_kept_iff` : which conventional names stay as they are
-/

namespace LogSetup

open Text

/-- No digit of a name stands directly before a small letter. -/
def DigitsEndWords (key : String) : Prop :=
  key.toList.IsChain fun d c => ¬ (d.isDigit = true ∧ c.isLower = true)

/-- What a character does in the words of a name. -/
inductive WordRole (c : Char) : Prop
  | separator (h : isWordSeparator c = true)
  | capital (h : c.isUpper = true)
  | small (h : c.isLower = true)
  | other (hseparator : isWordSeparator c = false) (hcapital : c.isUpper = false)
      (hsmall : c.isLower = false)

variable {b : Bool} {c d p : Char} {cs : List Char} {key : String}

/-! ### Characters -/

theorem wordRole (c : Char) : WordRole c := by
  by_cases hseparator : isWordSeparator c = true
  · exact .separator hseparator
  by_cases hcapital : c.isUpper = true
  · exact .capital hcapital
  by_cases hsmall : c.isLower = true
  · exact .small hsmall
  · rw [Bool.not_eq_true] at hseparator hcapital hsmall
    exact .other hseparator hcapital hsmall

theorem toNat_lt_of_isUpper (h : c.isUpper = true) : c.toNat < 0x80 :=
  lt_of_isAlphanum (Bool.or_eq_true_iff.mpr (.inl (Bool.or_eq_true_iff.mpr (.inl h))))

theorem toNat_lt_of_isLower (h : c.isLower = true) : c.toNat < 0x80 :=
  lt_of_isAlphanum (Bool.or_eq_true_iff.mpr (.inl (Bool.or_eq_true_iff.mpr (.inr h))))

theorem of_isWordSeparator (h : isWordSeparator c = true) : c.isDigit = false ∧ c ≠ '_' := by
  simp only [isWordSeparator, Bool.or_eq_true, beq_iff_eq] at h
  obtain (rfl | rfl) | rfl := h <;> decide

theorem of_isUpper (h : c.isUpper = true) :
    isWordSeparator c = false ∧ endsWord c = false ∧ c.isLower = false ∧ c.isDigit = false ∧
      c.toUpper = c ∧ c ≠ '_' :=
  forall_ascii (P := fun c => c.isUpper = true → isWordSeparator c = false ∧ endsWord c = false ∧
    c.isLower = false ∧ c.isDigit = false ∧ c.toUpper = c ∧ c ≠ '_') (by decide +kernel)
    (toNat_lt_of_isUpper h) h

theorem of_isLower (h : c.isLower = true) :
    isWordSeparator c = false ∧ c.isUpper = false ∧ c.isDigit = false ∧
      c.toUpper.isUpper = true ∧ c.toUpper.toNat < 0x80 :=
  forall_ascii (P := fun c => c.isLower = true → isWordSeparator c = false ∧ c.isUpper = false ∧
    c.isDigit = false ∧ c.toUpper.isUpper = true ∧ c.toUpper.toNat < 0x80) (by decide +kernel)
    (toNat_lt_of_isLower h) h

theorem toUpper_of_not_isLower (h : c.isLower = false) : c.toUpper = c := by
  refine dif_neg fun ⟨hlow, hhigh⟩ => Bool.eq_false_iff.mp h ?_
  exact Bool.and_eq_true_iff.mpr ⟨decide_eq_true hlow, decide_eq_true hhigh⟩

theorem isLower_toUpper (c : Char) : c.toUpper.isLower = false := by
  cases hc : c.isLower with
  | true => exact (of_isUpper (of_isLower hc).2.2.2.1).2.2.1
  | false => rw [toUpper_of_not_isLower hc, hc]

/-! ### What a character becomes -/

theorem variableChar_of_separator (h : isWordSeparator c = true) : variableChar b c = ['_'] :=
  if_pos h

theorem variableChar_of_capital (h : c.isUpper = true) :
    variableChar b c = if b then ['_', c] else [c] := by
  obtain ⟨hseparator, -, -, -, hself, -⟩ := of_isUpper h
  rw [variableChar, if_neg (by simp [hseparator]), hself]
  simp [h]

theorem variableChar_of_small (h : c.isLower = true) : variableChar b c = [c.toUpper] := by
  obtain ⟨hseparator, hcapital, -⟩ := of_isLower h
  rw [variableChar, if_neg (by simp [hseparator]), if_neg (by simp [hcapital])]

theorem variableChar_of_other (hseparator : isWordSeparator c = false)
    (hcapital : c.isUpper = false) (hsmall : c.isLower = false) : variableChar b c = [c] := by
  rw [variableChar, if_neg (by simp [hseparator]), if_neg (by simp [hcapital]),
    toUpper_of_not_isLower hsmall]

theorem variableChar_of_not_separator (h : isWordSeparator c = false) :
    variableChar b c = (if c.isUpper ∧ b then ['_'] else []) ++ [c.toUpper] := by
  rw [variableChar, if_neg (by simp [h])]
  by_cases hcapital : c.isUpper ∧ b
  · rw [if_pos hcapital, if_pos hcapital, (of_isUpper hcapital.1).2.2.2.2.1]
    rfl
  · rw [if_neg hcapital, if_neg hcapital]
    rfl

theorem of_mem_variableChar (h : d ∈ variableChar b c) :
    d = '_' ∨ isWordSeparator c = false ∧ d = c.toUpper := by
  cases hc : isWordSeparator c with
  | true =>
    rw [variableChar_of_separator hc] at h
    exact .inl (List.mem_singleton.mp h)
  | false =>
    rw [variableChar_of_not_separator hc, List.mem_append] at h
    obtain hmark | hletter := h
    · split at hmark
      · exact .inl (List.mem_singleton.mp hmark)
      · exact absurd hmark List.not_mem_nil
    · exact .inr ⟨rfl, List.mem_singleton.mp hletter⟩

theorem of_mem_variableChars (h : d ∈ variableChars b cs) :
    d = '_' ∨ ∃ c ∈ cs, isWordSeparator c = false ∧ d = c.toUpper := by
  induction cs generalizing b with
  | nil => exact absurd h List.not_mem_nil
  | cons c rest ih =>
    rw [variableChars, List.mem_append] at h
    obtain hhead | htail := h
    · exact (of_mem_variableChar hhead).imp_right fun hd => ⟨c, List.mem_cons_self, hd⟩
    · exact (ih htail).imp_right fun ⟨c', hc', hd⟩ => ⟨c', List.mem_cons_of_mem c hc', hd⟩

/-- A conventional name has no small letters. -/
theorem not_isLower_of_mem_variableChars (h : d ∈ variableChars b cs) : d.isLower = false := by
  obtain rfl | ⟨c, -, -, rfl⟩ := of_mem_variableChars h
  · decide
  · exact isLower_toUpper c

/-! ### The second scan -/

/-- The second scan leaves alone what a character became in the first, unless it became a capital
behind a digit. -/
theorem variableChars_again (h : ¬ (p.isDigit = true ∧ c.isLower = true)) (cs : List Char) :
    variableChars p.isDigit (variableChar (endsWord p) c ++ cs) =
      variableChar (endsWord p) c ++ variableChars c.isDigit cs := by
  cases wordRole c with
  | separator hc =>
    rw [variableChar_of_separator hc, (of_isWordSeparator hc).1]
    rfl
  | capital hc =>
    obtain ⟨-, hends, -, hdigit, -⟩ := of_isUpper hc
    rw [variableChar_of_capital hc, hdigit]
    cases hp : endsWord p with
    | true =>
      show variableChar _ '_' ++ (variableChar false c ++ variableChars (endsWord c) cs) = _
      rw [variableChar_of_capital hc, hends]
      rfl
    | false =>
      have hpdigit : p.isDigit = false := (Bool.or_eq_false_iff.mp hp).2
      show variableChar _ c ++ variableChars (endsWord c) cs = _
      rw [variableChar_of_capital hc, hends, hpdigit]
  | small hc =>
    obtain ⟨-, -, hdigit, hcapital, -⟩ := of_isLower hc
    have hpdigit : p.isDigit = false := by simpa [hc] using h
    rw [variableChar_of_small hc, hdigit, hpdigit]
    show variableChar false c.toUpper ++ variableChars (endsWord c.toUpper) cs = _
    rw [variableChar_of_capital hcapital, (of_isUpper hcapital).2.1]
    rfl
  | other hseparator hcapital hsmall =>
    rw [variableChar_of_other hseparator hcapital hsmall]
    show variableChar _ c ++ variableChars (endsWord c) cs = _
    rw [variableChar_of_other hseparator hcapital hsmall, endsWord, hsmall, Bool.false_or]

theorem variableChars_again_ne (hp : p.isDigit = true) (hc : c.isLower = true) (cs : List Char) :
    variableChars p.isDigit (variableChar (endsWord p) c ++ cs) ≠
      variableChar (endsWord p) c ++ cs := by
  have hcapital : c.toUpper.isUpper = true := (of_isLower hc).2.2.2.1
  rw [variableChar_of_small hc, hp]
  show variableChar true c.toUpper ++ _ ≠ c.toUpper :: cs
  rw [variableChar_of_capital hcapital]
  intro heq
  exact (of_isUpper hcapital).2.2.2.2.2 (List.cons.inj heq).1.symm

/-- The induction carries the character in front, which is a digit in the second scan if it is one
in the first, and never a small letter. -/
theorem variableChars_twice_iff (p : Char) (cs : List Char) :
    variableChars p.isDigit (variableChars (endsWord p) cs) = variableChars (endsWord p) cs ↔
      (p :: cs).IsChain fun d c => ¬ (d.isDigit = true ∧ c.isLower = true) := by
  induction cs generalizing p with
  | nil => exact iff_of_true rfl (.singleton p)
  | cons c rest ih =>
    rw [variableChars, List.isChain_cons_cons]
    by_cases h : p.isDigit = true ∧ c.isLower = true
    · exact iff_of_false (variableChars_again_ne h.1 h.2 _) fun hchain => hchain.1 h
    · rw [variableChars_again h, List.append_right_inj, ih]
      exact (and_iff_right h).symm

theorem variableName_variableName_iff :
    variableName (variableName key) = variableName key ↔ DigitsEndWords key := by
  rw [variableName, variableName, String.toList_ofList, String.ofList_inj, DigitsEndWords]
  -- an underscore in front of the name changes nothing
  refine (variableChars_twice_iff '_' key.toList).trans ?_
  cases key.toList with
  | nil => exact iff_of_true (.singleton _) .nil
  | cons c rest =>
    rw [List.isChain_cons_cons]
    exact and_iff_right fun h => absurd h.1 (by decide)

theorem digitsEndWords_variableName (key : String) : DigitsEndWords (variableName key) := by
  rw [DigitsEndWords, variableName, String.toList_ofList]
  refine List.Pairwise.isChain (List.pairwise_of_forall_mem_list fun d _ c hc h => ?_)
  rw [not_isLower_of_mem_variableChars hc] at h
  exact nomatch h.2

/-! ### Looking a setting up -/

theorem variableChar_eq_self_or (b : Bool) (c : Char) :
    variableChar b c = [c] ∨
      ∃ d more, variableChar b c = d :: more ∧ d ≠ c ∧ d.toNat < 0x80 := by
  cases wordRole c with
  | separator hc =>
    exact .inr ⟨'_', [], variableChar_of_separator hc, (of_isWordSeparator hc).2.symm, by decide⟩
  | capital hc =>
    rw [variableChar_of_capital hc]
    cases b with
    | true => exact .inr ⟨'_', [c], rfl, (of_isUpper hc).2.2.2.2.2.symm, by decide⟩
    | false => exact .inl rfl
  | small hc =>
    obtain ⟨-, hupper, -, hcapital, hlt⟩ := of_isLower hc
    refine .inr ⟨c.toUpper, [], variableChar_of_small hc, fun hsame => ?_, hlt⟩
    rw [hsame, hupper] at hcapital
    exact nomatch hcapital
  | other hseparator hcapital hsmall =>
    exact .inl (variableChar_of_other hseparator hcapital hsmall)

theorem exists_difference_of_chars (h : variableChars b cs ≠ cs) :
    ∃ front c rest d more, cs = front ++ c :: rest ∧ variableChars b cs = front ++ d :: more ∧
      d ≠ c ∧ d.toNat < 0x80 := by
  induction cs generalizing b with
  | nil => exact absurd rfl h
  | cons c rest ih =>
    obtain hself | ⟨d, more, hchar, hne, hlt⟩ := variableChar_eq_self_or b c
    · rw [variableChars, hself] at h
      obtain ⟨front, c', rest', d, more, hcs, hout, hne⟩ := ih fun heq => h (congrArg (c :: ·) heq)
      refine ⟨c :: front, c', rest', d, more, congrArg (c :: ·) hcs, ?_, hne⟩
      rw [variableChars, hself, hout]
      rfl
    · refine ⟨[], c, rest, d, more ++ variableChars (endsWord c) rest, rfl, ?_, hne, hlt⟩
      rw [variableChars, hchar]
      rfl

/-- Where a name and its conventional name part, the latter goes on with a character of ASCII. -/
theorem exists_difference (h : variableName key ≠ key) :
    ∃ front c rest d more, key.toList = front ++ c :: rest ∧
      (variableName key).toList = front ++ d :: more ∧ d ≠ c ∧ d.toNat < 0x80 := by
  rw [variableName, String.toList_ofList]
  refine exists_difference_of_chars fun hchars => h ?_
  rw [variableName, hchars, String.ofList_toList]

namespace Environment

theorem value?_singleton (v : String × Bytes) (name : String) :
    value? [v] name =
      if name = "" then none
      else if (Utf8.encode name ++ [0x3D]).isPrefixOf (line v) then
        some ((line v).drop (Utf8.encode name ++ [0x3D]).length)
      else none := by
  unfold value?
  extract_lets front
  rw [List.find?_singleton]
  split
  · rfl
  · split <;> rfl

theorem value?_self {name : String} (h : name ≠ "") (value : Bytes) :
    value? [(name, value)] name = some value := by
  have hline : line (name, value) = (Utf8.encode name ++ [0x3D]) ++ value :=
    (List.append_assoc _ [0x3D] value).symm
  rw [value?_singleton, if_neg h, hline, List.drop_left, if_pos]
  exact List.isPrefixOf_iff_prefix.mpr (List.prefix_append _ _)

/-- The variable of the conventional name is not read under another name. -/
theorem value?_of_variableName_ne (h : variableName key ≠ key) (value : Bytes) :
    value? [(variableName key, value)] key = none := by
  obtain ⟨front, c, rest, d, more, hkey, hname, hne, hlt⟩ := exists_difference h
  rw [value?_singleton, if_neg (c := List.isPrefixOf _ _ = true), ite_self]
  rw [List.isPrefixOf_iff_prefix, line, Utf8.encode, Utf8.encode, hname, hkey]
  simp only [List.flatMap_append, List.flatMap_cons, List.append_assoc]
  rw [List.prefix_append_right_inj, utf8EncodeChar_of_lt hlt]
  intro hprefix
  -- the two names go on with different bytes, as the one is a character of ASCII
  obtain ⟨byte, tail, hc⟩ := List.exists_cons_of_ne_nil (String.utf8EncodeChar_ne_nil (c := c))
  rw [hc] at hprefix
  have hbyte : byte.toNat = d.toNat := by
    rw [(List.cons_prefix_cons.mp hprefix).1, UInt8.toNat_ofNat', Nat.mod_eq_of_lt (by omega)]
  have hsame : c.toNat = byte.toNat :=
    toNat_of_mem_utf8EncodeChar (hc ▸ List.mem_cons_self) (hbyte ▸ hlt)
  exact hne (Char.toNat_inj.mp (hsame.trans hbyte).symm)

/-- Only a name that is its own conventional name is looked up once: under any other one there is
an environment in which just the variable of the conventional name is set. -/
theorem setting?_eq_text?_iff (key : String) :
    (∀ env : Environment, env.setting? key = env.text? key) ↔ variableName key = key := by
  constructor
  · intro hall
    by_contra hne
    have hempty : variableName key ≠ "" := by
      obtain ⟨front, c, rest, d, more, -, hname, -⟩ := exists_difference hne
      intro heq
      rw [heq] at hname
      exact absurd hname (List.append_ne_nil_of_right_ne_nil _ (List.cons_ne_nil d more)).symm
    have hunset : text? [(variableName key, [0x78])] key = none := by
      rw [text?, value?_of_variableName_ne hne]
      rfl
    have hset : text? [(variableName key, [0x78])] (variableName key) = some "x" := by
      rw [text?, value?_self hempty]
      decide +kernel
    have hfound := hall [(variableName key, [0x78])]
    rw [setting?, hunset] at hfound
    change (if variableName key = key then none else _) = none at hfound
    rw [if_neg hne, hset] at hfound
    exact nomatch hfound
  · intro heq env
    rw [setting?, heq]
    cases env.text? key with
    | some value => rfl
    | none => exact if_pos rfl

end Environment

/-- The conventional name of a setting is its own conventional name, and is looked up under one name
only, exactly when no digit of the setting's name stands directly before a small letter. The
conventional name of a conventional name always is. -/
theorem conventional_name_kept_iff (key : String) :
    (variableName (variableName key) = variableName key ↔ DigitsEndWords key) ∧
    ((∀ env : Environment, env.setting? (variableName key) = env.text? (variableName key)) ↔
      DigitsEndWords key) ∧
    variableName (variableName (variableName key)) = variableName (variableName key) := by
  refine ⟨variableName_variableName_iff, ?_, ?_⟩
  · exact (Environment.setting?_eq_text?_iff _).trans variableName_variableName_iff
  · exact variableName_variableName_iff.mpr (digitsEndWords_variableName key)

/-- The four of `log4j` is split from the letter after it when the conventional name is scanned. -/
theorem not_forall_conventional_name_kept :
    ¬ ∀ key, variableName (variableName key) = variableName key ∧
      ∀ env : Environment, env.setting? (variableName key) = env.text? (variableName key) := by
  intro hall
  have hname : variableName "log4j.configurationFile" = "LOG4J_CONFIGURATION_FILE" := by
    decide +kernel
  have hagain : variableName "LOG4J_CONFIGURATION_FILE" = "LOG4_J_CONFIGURATION_FILE" := by
    decide +kernel
  have hkept := (hall "log4j.configurationFile").1
  rw [hname, hagain] at hkept
  exact absurd hkept (by decide)

end LogSetup
