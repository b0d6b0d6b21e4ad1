import LogSetup.Proofs.Settings.Names

/-!
# Spelling of conventional names

All that the scan of a name remembers is whether the last character that it has read is a small
letter or a digit. So what it writes for a character is known from that character and the one just
before it, and a conventional name is spelled place by place. Behind a separator the scan goes on as
at the front of a name: the conventional name of words with separators between them is that of each
word, with underscores between them.

## Main definitions

- `separators` : the characters that separate words
- `before?` : the character just before a place
- `spelling` : what is written for a character, given the one just before it

## Main statements

- `toList_variableName` : a conventional name is spelled place by place
- `filter_variableChars` : a conventional name without its underscores
- `variableName_append_separator` : words are spelled each on its own
- `variableName_spelled` : how a conventional name is spelled, and what follows from it
-/

namespace LogSetup

/-- The characters that separate words. -/
def separators : List Char := ['.', '-', ' ']

/-- The character just before a place; there is none before the first place. -/
def before? (cs : List Char) : ℕ → Option Char
  | 0 => none
  | i + 1 => cs[i]?

/-- What is written for a character, given the one just before it: an underscore for a separator;
for a capital, the capital, with an underscore in front exactly behind a small letter or a digit;
and for any other character its capital. -/
def spelling (before : Option Char) (c : Char) : List Char :=
  if c ∈ separators then ['_']
  else if c.isUpper then
    if before.any fun p => p.isLower || p.isDigit then ['_', c] else [c]
  else [c.toUpper]

variable {b : Bool} {c d s : Char} {cs : List Char}

theorem mem_separators_iff : c ∈ separators ↔ isWordSeparator c = true := by
  simp [separators, isWordSeparator, or_assoc]

theorem not_mem_separators_iff : c ∉ separators ↔ isWordSeparator c = false := by
  rw [mem_separators_iff, Bool.not_eq_true]

theorem of_mem_separators (h : c ∈ separators) :
    c.isUpper = false ∧ c.isLower = false ∧ endsWord c = false := by
  obtain rfl | rfl | rfl : c = '.' ∨ c = '-' ∨ c = ' ' := by simpa [separators] using h
  all_goals decide

/-! ### Place by place -/

theorem spelling_eq (before : Option Char) (c : Char) :
    spelling before c = variableChar (before.any endsWord) c := by
  cases wordRole c with
  | separator hc => rw [spelling, if_pos (mem_separators_iff.mpr hc), variableChar_of_separator hc]
  | capital hc =>
    rw [spelling, if_neg (not_mem_separators_iff.mpr (of_isUpper hc).1), if_pos hc,
      variableChar_of_capital hc]
    rfl
  | small hc =>
    obtain ⟨hseparator, hcapital, -⟩ := of_isLower hc
    rw [spelling, if_neg (not_mem_separators_iff.mpr hseparator), if_neg (by simp [hcapital]),
      variableChar_of_small hc]
  | other hseparator hcapital hsmall =>
    rw [spelling, if_neg (not_mem_separators_iff.mpr hseparator), if_neg (by simp [hcapital]),
      variableChar_of_other hseparator hcapital hsmall, toUpper_of_not_isLower hsmall]

/-- The induction carries the character in front, of which the scan has kept one bit. -/
theorem variableChars_eq_flatten (p : Char) (cs : List Char) :
    variableChars (endsWord p) cs = (cs.mapIdx fun i c => spelling (p :: cs)[i]? c).flatten := by
  induction cs generalizing p with
  | nil => rfl
  | cons c rest ih =>
    rw [variableChars, ih c, List.mapIdx_cons, List.flatten_cons, List.getElem?_cons_zero,
      spelling_eq]
    rfl

theorem toList_variableName (key : String) :
    (variableName key).toList =
      (key.toList.mapIdx fun i c => spelling (before? key.toList i) c).flatten := by
  rw [variableName, String.toList_ofList]
  cases key.toList with
  | nil => rfl
  | cons c rest =>
    rw [variableChars, variableChars_eq_flatten, List.mapIdx_cons, List.flatten_cons, spelling_eq]
    rfl

/-! ### Capitals and underscores -/

/-- A character that is no letter is the capital of itself only. -/
theorem toUpper_eq_iff (hcapital : d.isUpper = false) (hsmall : d.isLower = false) :
    c.toUpper = d ↔ c = d := by
  cases hc : c.isLower with
  | true =>
    have hupper : c.toUpper.isUpper = true := (of_isLower hc).2.2.2.1
    refine iff_of_false ?_ ?_
    · rintro rfl
      rw [hupper] at hcapital
      exact nomatch hcapital
    · rintro rfl
      rw [hc] at hsmall
      exact nomatch hsmall
  | false => rw [toUpper_of_not_isLower hc]

theorem toUpper_mem_separators_iff : c.toUpper ∈ separators ↔ c ∈ separators := by
  have hiff : ∀ d ∈ separators, (c.toUpper = d ↔ c = d) := by
    intro d hd
    obtain ⟨hcapital, hsmall, -⟩ := of_mem_separators hd
    exact toUpper_eq_iff hcapital hsmall
  constructor
  · intro h
    rwa [(hiff _ h).mp rfl]
  · intro h
    rwa [(hiff _ h).mpr rfl]

theorem not_mem_separators_of_mem_variableChars (h : d ∈ variableChars b cs) :
    d ∉ separators := by
  obtain rfl | ⟨c, -, hc, rfl⟩ := of_mem_variableChars h
  · decide
  · rw [toUpper_mem_separators_iff]
    exact not_mem_separators_iff.mpr hc

/-- Without underscores, what a character becomes does not depend on the one before it. -/
theorem filter_variableChar (b : Bool) (c : Char) :
    (variableChar b c).filter (· ≠ '_') =
      ([c].filter (· ∉ '_' :: separators)).map Char.toUpper := by
  cases hc : isWordSeparator c with
  | true =>
    have hmem : c ∈ '_' :: separators := List.mem_cons_of_mem _ (mem_separators_iff.mpr hc)
    rw [variableChar_of_separator hc, List.filter_cons_of_neg (by simp),
      List.filter_cons_of_neg (by simpa only [decide_eq_true_eq, not_not] using hmem)]
    rfl
  | false =>
    have hmark : (if c.isUpper ∧ b then ['_'] else []).filter (· ≠ '_') = [] := by
      split <;> rfl
    rw [variableChar_of_not_separator hc, List.filter_append, hmark, List.nil_append]
    by_cases hunderscore : c = '_'
    · rw [hunderscore]
      rfl
    · have hmem : c ∉ '_' :: separators :=
        List.not_mem_cons_of_ne_of_not_mem hunderscore (not_mem_separators_iff.mpr hc)
      have hupper : c.toUpper ≠ '_' := by
        rwa [ne_eq, toUpper_eq_iff (by decide) (by decide)]
      rw [List.filter_cons_of_pos (by simpa using hupper),
        List.filter_cons_of_pos (by simpa using hmem)]
      rfl

theorem filter_variableChars (b : Bool) (cs : List Char) :
    (variableChars b cs).filter (· ≠ '_') =
      (cs.filter (· ∉ '_' :: separators)).map Char.toUpper := by
  induction cs generalizing b with
  | nil => rfl
  | cons c rest ih =>
    rw [variableChars, List.filter_append, filter_variableChar, ih, ← List.map_append,
      ← List.filter_append]
    rfl

/-! ### Words -/

theorem variableChars_append_separator (hs : s ∈ separators) (b : Bool) (cs ds : List Char) :
    variableChars b (cs ++ s :: ds) = variableChars b cs ++ '_' :: variableChars false ds := by
  induction cs generalizing b with
  | nil =>
    show variableChar b s ++ variableChars (endsWord s) ds = _
    rw [variableChar_of_separator (mem_separators_iff.mp hs), (of_mem_separators hs).2.2]
    rfl
  | cons c rest ih => rw [List.cons_append, variableChars, variableChars, ih, List.append_assoc]

theorem variableName_append_separator (hs : s ∈ separators) (key rest : String) :
    variableName (key ++ String.singleton s ++ rest) =
      variableName key ++ "_" ++ variableName rest := by
  apply String.toList_inj.mp
  simp only [variableName, String.toList_append, String.toList_singleton, String.toList_ofList,
    List.append_assoc, List.singleton_append]
  exact variableChars_append_separator hs false key.toList rest.toList

/-- A conventional name is spelled place by place: what is written for a character depends on it and
on the one just before it. So there are no small letters and no separators in a conventional name;
without its underscores it is the name without separators and underscores, in capitals; and words
with a separator between them are spelled each on its own. -/
theorem variableName_spelled (key rest : String) :
    (variableName key).toList =
        (key.toList.mapIdx fun i c => spelling (before? key.toList i) c).flatten ∧
    (∀ d ∈ (variableName key).toList, d.isLower = false ∧ d ∉ separators) ∧
    (variableName key).toList.filter (· ≠ '_') =
        (key.toList.filter (· ∉ '_' :: separators)).map Char.toUpper ∧
    ∀ s ∈ separators, variableName (key ++ String.singleton s ++ rest) =
        variableName key ++ "_" ++ variableName rest := by
  refine ⟨toList_variableName key, ?_, ?_, fun s hs => variableName_append_separator hs key rest⟩
  · intro d hd
    rw [variableName, String.toList_ofList] at hd
    exact ⟨not_isLower_of_mem_variableChars hd, not_mem_separators_of_mem_variableChars hd⟩
  · rw [variableName, String.toList_ofList]
    exact filter_variableChars false key.toList

/-- A capital behind a digit gets an underscore, and a letter beyond ASCII stays as it is. -/
theorem naive_mode_spelled :
    'ï' ∈ (variableName "naïve2Mode").toList ∧ 'ï'.isLower = false ∧ 'ï' ∉ separators ∧
    '-' ∈ separators ∧
    variableName ("naïve2Mode" ++ String.singleton '-' ++ "_dryRun") =
      "NAïVE2_MODE" ++ "_" ++ "_DRY_RUN" := by
  obtain ⟨-, hclear, -, hwords⟩ := variableName_spelled "naïve2Mode" "_dryRun"
  have hfront : variableName "naïve2Mode" = "NAïVE2_MODE" := by decide +kernel
  have hback : variableName "_dryRun" = "_DRY_RUN" := by decide +kernel
  have hmem : 'ï' ∈ (variableName "naïve2Mode").toList := by
    rw [hfront]
    decide +kernel
  refine ⟨hmem, (hclear 'ï' hmem).1, (hclear 'ï' hmem).2, by decide, ?_⟩
  rw [hwords '-' (by decide), hfront, hback]

end LogSetup
