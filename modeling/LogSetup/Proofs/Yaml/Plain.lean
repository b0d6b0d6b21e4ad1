import LogSetup.Proofs.Binary64.Canonical
import LogSetup.Proofs.Text.Numerals
import LogSetup.Yaml.Plain

/-!
# Which plain scalars are numbers

A plain scalar is an integer when it is a numeral, except that digits after a leading zero are none,
or when digits of another radix follow a radix mark. The other numbers have a point or an exponent,
or are named.

## Main definitions

- `Yaml.HasRadixMark` : a scalar starts with a radix mark, after an optional sign

## Main statements

- `Yaml.isNumeral_of_readInteger?` : integers without a radix mark are numerals
- `Yaml.Plain.not_isNumeral_of_readFloat?` : other numbers are not
-/

namespace LogSetup.Yaml

open Text

/-- A text starts with a radix mark. -/
def StartsWithRadix (ds : List Char) : Prop := ∃ mark ∈ ['x', 'o', 'b'], ['0', mark] <+: ds

/-- A scalar starts with a radix mark, after an optional sign. -/
def HasRadixMark (cs : List Char) : Prop := StartsWithRadix (dropSign cs)

instance (ds : List Char) : Decidable (StartsWithRadix ds) :=
  decidable_of_iff ((['x', 'o', 'b'].any fun mark => ['0', mark].isPrefixOf ds) = true)
    (by simp only [StartsWithRadix, List.any_eq_true, List.isPrefixOf_iff_prefix])

instance (cs : List Char) : Decidable (HasRadixMark cs) :=
  inferInstanceAs (Decidable (StartsWithRadix (dropSign cs)))

variable {cs : List Char} {i : Int}

/-! ### Integers -/

section Integers

variable {ds : List Char} {n : Nat}

theorem readRadix?_eq_none (h : ¬ StartsWithRadix ds) : readRadix? ds = none := by
  rw [readRadix?.eq_def]
  split
  · next rest => exact absurd ⟨'x', by decide, ⟨rest, rfl⟩⟩ h
  · next rest => exact absurd ⟨'o', by decide, ⟨rest, rfl⟩⟩ h
  · next rest => exact absurd ⟨'b', by decide, ⟨rest, rfl⟩⟩ h
  · rfl

theorem isDigits_of_readMagnitude? (h : ¬ StartsWithRadix ds)
    (hread : readMagnitude? ds = some n) : IsDigits ds ∧ n = Nat.ofDigitChars 10 ds 0 := by
  rw [readMagnitude?, readRadix?_eq_none h] at hread
  dsimp only at hread
  split at hread
  · cases hread
  · exact readDigits?_eq_some_iff.mp hread

/-- Integers without a radix mark are numerals. -/
theorem isNumeral_of_readInteger? (h : ¬ HasRadixMark cs) (hread : readInteger? cs = some i) :
    IsNumeral cs i := by
  rw [readInteger?.eq_def] at hread
  split at hread <;> obtain ⟨n, hn, rfl⟩ := (map_sign_eq_some_iff _).mp hread
  · obtain ⟨hdigits, rfl⟩ := isDigits_of_readMagnitude? h hn
    exact .plus hdigits
  · obtain ⟨hdigits, rfl⟩ := isDigits_of_readMagnitude? h hn
    exact .minus hdigits
  · next hplus hminus =>
    have hdrop : dropSign cs = cs := by
      rw [dropSign.eq_def]
      split
      · exact absurd rfl (hplus _)
      · exact absurd rfl (hminus _)
      · rfl
    rw [HasRadixMark, hdrop] at h
    obtain ⟨hdigits, rfl⟩ := isDigits_of_readMagnitude? h hn
    exact .bare hdigits

theorem dropSign_of_isDigits (h : IsDigits ds) : dropSign ds = ds := by
  rw [dropSign.eq_def]
  split
  · exact absurd h not_isDigits_plus
  · exact absurd h not_isDigits_minus
  · rfl

theorem not_startsWithRadix_of_isDigits (h : IsDigits ds) : ¬ StartsWithRadix ds := by
  rintro ⟨mark, hmark, rest, rfl⟩
  have hnone : ∀ mark ∈ ['x', 'o', 'b'], ¬ mark.isDigit = true := by simp
  exact hnone mark hmark (h.2 mark (by simp))

theorem readMagnitude?_of_isDigits (h : IsDigits ds) (hpadded : isPaddedDigits ds = false) :
    readMagnitude? ds = some (Nat.ofDigitChars 10 ds 0) := by
  rw [readMagnitude?, readRadix?_eq_none (not_startsWithRadix_of_isDigits h)]
  dsimp only
  rw [hpadded]
  exact readDigits?_eq_some_iff.mpr ⟨h, rfl⟩

/-- Numerals are integers, unless they are padded with zeros. -/
theorem readInteger?_of_isNumeral (h : IsNumeral cs i) (hpadded : isPaddedDigits cs = false) :
    readInteger? cs = some i := by
  cases h with
  | plus hdigits =>
    rw [isPaddedDigits, dropSign, ← dropSign_of_isDigits hdigits] at hpadded
    exact (map_sign_eq_some_iff _).mpr ⟨_, readMagnitude?_of_isDigits hdigits hpadded, rfl⟩
  | minus hdigits =>
    rw [isPaddedDigits, dropSign, ← dropSign_of_isDigits hdigits] at hpadded
    exact (map_sign_eq_some_iff _).mpr ⟨_, readMagnitude?_of_isDigits hdigits hpadded, rfl⟩
  | bare hdigits =>
    rw [readInteger?.eq_def]
    split
    · exact absurd hdigits not_isDigits_plus
    · exact absurd hdigits not_isDigits_minus
    · exact (map_sign_eq_some_iff _).mpr ⟨_, readMagnitude?_of_isDigits hdigits hpadded, rfl⟩

/-- What starts with a radix mark is no numeral, blanks or not. -/
theorem HasRadixMark.not_isNumeral_trimChars (h : HasRadixMark cs) :
    ¬ IsNumeral (trimChars cs) i := by
  obtain ⟨mark, hmark, hfront⟩ := h
  have hdropped : ∀ {c : Char}, c ∈ dropSign cs → c ∈ cs := by
    intro c hc
    rw [dropSign.eq_def] at hc
    split at hc
    · exact List.mem_cons_of_mem _ hc
    · exact List.mem_cons_of_mem _ hc
    · exact hc
  have hmem : mark ∈ cs := hdropped (hfront.subset (by simp))
  have hnone : ∀ mark ∈ ['x', 'o', 'b'],
      isBlank mark = false ∧ ¬ mark.isDigit = true ∧ mark ≠ '+' ∧ mark ≠ '-' := by simp [isBlank]
  obtain ⟨hblank, hdigit, hplus, hminus⟩ := hnone mark hmark
  intro hnumeral
  rcases hnumeral.isDigit_or_sign (mem_trimChars hmem hblank) with hd | hp | hm
  · exact hdigit hd
  · exact hplus hp
  · exact hminus hm

end Integers

/-! ### Other numbers -/

/-- The characters of a number with a point or an exponent. -/
def IsNumeric (c : Char) : Prop := c.isDigit = true ∨ c ∈ ['.', 'e', 'E', '+', '-']

theorem IsNumeric.not_isBlank {c : Char} (h : IsNumeric c) : isBlank c = false := by
  have hothers : ∀ c ∈ ['.', 'e', 'E', '+', '-'], isBlank c = false := by simp [isBlank]
  exact h.elim not_isBlank_of_isDigit (hothers c)

theorem isNumeric_of_readExponent? {e : Int} (h : Binary64.readExponent? cs = some e) :
    ∀ c ∈ cs, IsNumeric c := by
  rw [Binary64.readExponent?.eq_def] at h
  split at h
  · exact nofun
  · next mark rest =>
    split at h
    · next hmark =>
      intro c hc
      rcases List.mem_cons.mp hc with rfl | hc
      · rcases hmark with rfl | rfl <;> exact .inr (by decide)
      · rcases (readSigned?_eq_some_iff.mp h).isDigit_or_sign hc with hdigit | rfl | rfl
        · exact .inl hdigit
        · exact .inr (by decide)
        · exact .inr (by decide)
    · cases h

theorem isNumeric_of_digitsAndRest {e : Int}
    (h : Binary64.readExponent? (Binary64.digitsAndRest cs).2 = some e) :
    ∀ c ∈ cs, IsNumeric c := by
  intro c hc
  rw [← List.takeWhile_append_dropWhile (p := Char.isDigit) (l := cs), List.mem_append] at hc
  rcases hc with hc | hc
  · exact .inl (List.mem_takeWhile_imp hc)
  · exact isNumeric_of_readExponent? h c hc

theorem isNumeric_of_readUnsigned? {negative : Bool} {x : Binary64}
    (h : Binary64.readUnsigned? negative cs = some x) : ∀ c ∈ cs, IsNumeric c := by
  intro c hc
  rw [← List.takeWhile_append_dropWhile (p := Char.isDigit) (l := cs), List.mem_append] at hc
  rcases hc with hc | hc
  · exact .inl (List.mem_takeWhile_imp hc)
  · simp only [Binary64.readUnsigned?] at h
    split_ifs at h
    obtain ⟨e, he, -⟩ := Option.map_eq_some_iff.mp h
    -- what follows the digits starts with the point or is the exponent
    split at he
    · next more hmore =>
      rw [show cs.dropWhile Char.isDigit = '.' :: more from hmore, List.mem_cons] at hc
      rcases hc with rfl | hc
      · exact .inr (by decide)
      · exact isNumeric_of_digitsAndRest he c hc
    · exact isNumeric_of_readExponent? he c hc

theorem isNumeric_of_read? {x : Binary64} (h : Binary64.read? cs = some x) :
    ∀ c ∈ cs, IsNumeric c := by
  rw [Binary64.read?.eq_def] at h
  split at h
  · exact List.forall_mem_cons.mpr ⟨.inr (by decide), isNumeric_of_readUnsigned? h⟩
  · exact List.forall_mem_cons.mpr ⟨.inr (by decide), isNumeric_of_readUnsigned? h⟩
  · exact isNumeric_of_readUnsigned? h

theorem not_isBlank_of_named {names : List String}
    (hnames : ∀ w ∈ names, ∀ c ∈ w.toList, isBlank c = false)
    (h : (names.any fun w => cs == w.toList) = true) : ∀ c ∈ cs, isBlank c = false := by
  obtain ⟨w, hw, heq⟩ := List.any_eq_true.mp h
  rw [beq_iff_eq.mp heq]
  exact hnames w hw

theorem not_isBlank_of_unsigned
    (h : ∀ c ∈ (match cs with | '+' :: rest => rest | _ => cs), isBlank c = false) :
    ∀ c ∈ cs, isBlank c = false := by
  split at h
  · exact List.forall_mem_cons.mpr ⟨by decide, h⟩
  · exact h

/-- A number holds no blanks, and is in normal form. -/
theorem of_readFloat? {x : Binary64} (h : readFloat? cs = some x) :
    (∀ c ∈ cs, isBlank c = false) ∧ x.IsCanonical := by
  simp only [readFloat?] at h
  split_ifs at h with hsigns hinf hneg hnan
  · cases h
    exact ⟨not_isBlank_of_unsigned (not_isBlank_of_named (by simp [isBlank]) hinf), trivial⟩
  · cases h
    exact ⟨not_isBlank_of_named (by simp [isBlank]) hneg, trivial⟩
  · cases h
    exact ⟨not_isBlank_of_named (by simp [isBlank]) hnan, trivial⟩
  · split at h
    · next y hread =>
      split_ifs at h
      cases h
      exact ⟨not_isBlank_of_unsigned fun c hc => (isNumeric_of_read? hread c hc).not_isBlank,
        Binary64.isCanonical_of_read? hread⟩
    · cases h

/-! ### Meanings -/

namespace Plain

theorem not_isNullWord_of_ne_null (h : of cs ≠ .null) : ¬ (cs = [] ∨ isNullWord cs = true) :=
  fun hnull => h (if_pos hnull)

/-- The size of an integer decides how it is kept. -/
theorem of_ofInteger? {p : Plain} (h : ofInteger? i = some p) :
    p = .integer i ∨ p = .wide i ∧ ¬ IsInt32 i := by
  rw [ofInteger?] at h
  split_ifs at h with hsmall hwide
  · exact .inl (Option.some.inj h).symm
  · refine .inr ⟨(Option.some.inj h).symm, ?_⟩
    rw [IsInt32]
    omega

theorem ofInteger?_of_isInt32 (h : IsInt32 i) : ofInteger? i = some (.integer i) := by
  rw [IsInt32] at h
  exact if_pos (by omega)

/-- How the meaning of a plain scalar came about. -/
theorem of_cases (hnull : of cs ≠ .null) (hbool : ∀ b, of cs ≠ .bool b) :
    (∃ i p, readInteger? cs = some i ∧ ofInteger? i = some p ∧ of cs = p) ∨
    (∃ x, (readInteger? cs).bind ofInteger? = none ∧ isPaddedDigits cs = false ∧
      readFloat? cs = some x ∧ of cs = .float x) ∨
    of cs = .text (String.ofList cs) := by
  have hword := not_isNullWord_of_ne_null hnull
  cases hread : readBool? cs with
  | some b => exact absurd (by rw [of, if_neg hword, hread]) (hbool b)
  | none =>
    cases hinteger : (readInteger? cs).bind ofInteger? with
    | some p =>
      obtain ⟨i, hi, hp⟩ := Option.bind_eq_some_iff.mp hinteger
      exact .inl ⟨i, p, hi, hp, by rw [of, if_neg hword, hread]; simp only [hinteger]⟩
    | none =>
      refine .inr ?_
      cases hfloat : (if isPaddedDigits cs then none else readFloat? cs) with
      | some x =>
        split_ifs at hfloat with hpadded
        rw [Bool.not_eq_true] at hpadded
        refine .inl ⟨x, rfl, hpadded, hfloat, ?_⟩
        rw [of, if_neg hword, hread]
        simp [hinteger, hpadded, hfloat]
      | none =>
        refine .inr ?_
        rw [of, if_neg hword, hread]
        simp only [hinteger, hfloat]

/-- Numbers with a point or an exponent, and named ones, are no numerals of 32 bits, blanks or
not. -/
theorem not_isNumeral_of_readFloat? {x : Binary64}
    (hinteger : (readInteger? cs).bind ofInteger? = none)
    (hpadded : isPaddedDigits cs = false) (hfloat : readFloat? cs = some x) :
    ¬ (IsNumeral (trimChars cs) i ∧ IsInt32 i) := by
  rintro ⟨hnumeral, hrange⟩
  rw [trimChars_of_not_blank (of_readFloat? hfloat).1] at hnumeral
  rw [readInteger?_of_isNumeral hnumeral hpadded, Option.bind_some, ofInteger?_of_isInt32 hrange]
    at hinteger
  cases hinteger

/-- An integer is a numeral, blanks or not, exactly when it has no radix mark. -/
theorem isNumeral_iff_of_readInteger? {j : Int} (h : readInteger? cs = some i) :
    IsNumeral (trimChars cs) j ↔ ¬ HasRadixMark cs ∧ j = i := by
  constructor
  · intro hj
    have hmark : ¬ HasRadixMark cs := fun hmark => hmark.not_isNumeral_trimChars hj
    have hi := isNumeral_of_readInteger? hmark h
    rw [hi.trimChars_eq] at hj
    exact ⟨hmark, hj.unique hi⟩
  · rintro ⟨hmark, rfl⟩
    have hi := isNumeral_of_readInteger? hmark h
    rwa [hi.trimChars_eq]

end Plain

end LogSetup.Yaml
