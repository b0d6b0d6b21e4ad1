import LogSetup.Proofs.Text.Pieces
import LogSetup.Text.Numeral
import Mathlib.Algebra.Group.Int.Defs

/-!
# Decimal numerals

A numeral is an optional sign and at least one ASCII digit. The readers of numbers in base ten
accept numerals and nothing else, with the number that the digits stand for, and every integer is
written as a numeral that stands for it.

## Main definitions

- `Text.IsNumeral` : a text is a numeral for a number
- `Text.IsInt32` : the 32-bit signed range

## Main statements

- `Text.readInt32?_eq_some_iff` : what is read as a 32-bit number
- `Text.isNumeral_decimalInt` : written integers are numerals
-/

namespace LogSetup.Text

/-- At least one ASCII digit and nothing else. -/
def IsDigits (ds : List Char) : Prop := ds ≠ [] ∧ ∀ d ∈ ds, d.isDigit = true

/-- A text is an optional sign and at least one ASCII digit, and stands for a number. -/
inductive IsNumeral : List Char → Int → Prop
  | bare {ds : List Char} (h : IsDigits ds) : IsNumeral ds (Nat.ofDigitChars 10 ds 0 : Nat)
  | plus {ds : List Char} (h : IsDigits ds) : IsNumeral ('+' :: ds) (Nat.ofDigitChars 10 ds 0 : Nat)
  | minus {ds : List Char} (h : IsDigits ds) :
    IsNumeral ('-' :: ds) (-(Nat.ofDigitChars 10 ds 0 : Nat))

/-- The 32-bit signed range. -/
def IsInt32 (i : Int) : Prop := -2 ^ 31 ≤ i ∧ i < 2 ^ 31

instance (i : Int) : Decidable (IsInt32 i) := inferInstanceAs (Decidable (_ ∧ _))

/-! ### Reading -/

section Reading

variable {c : Char} {cs ds : List Char} {i : Int} {n value : Nat}

theorem isDigit_iff : c.isDigit = true ↔ 48 ≤ c.toNat ∧ c.toNat ≤ 57 := by
  rw [Char.isDigit, Bool.and_eq_true, decide_eq_true_eq, decide_eq_true_eq]
  exact Iff.rfl

theorem digitValue?_lt_ten_iff {d : Nat} :
    digitValue? c = some d ∧ d < 10 ↔ c.isDigit = true ∧ d = c.toNat - 48 := by
  rw [isDigit_iff]
  simp only [digitValue?]
  split
  · rw [Option.some.injEq]
    omega
  · split
    · rw [Option.some.injEq]
      omega
    · split
      · rw [Option.some.injEq]
        omega
      · exact ⟨nofun, fun h => absurd h.1 ‹_›⟩

theorem readMore?_eq_some_iff :
    readMore? 10 value ds = some n ↔
      (∀ d ∈ ds, d.isDigit = true) ∧ n = Nat.ofDigitChars 10 ds value := by
  induction ds generalizing value with
  | nil =>
    rw [readMore?, Option.some.injEq, Nat.ofDigitChars_nil]
    exact ⟨fun h => ⟨nofun, h.symm⟩, fun h => h.2.symm⟩
  | cons c rest ih =>
    rw [readMore?, List.forall_mem_cons, Nat.ofDigitChars_cons]
    by_cases hc : c.isDigit = true
    · obtain ⟨hvalue, hlt⟩ := digitValue?_lt_ten_iff.mpr ⟨hc, rfl⟩
      rw [hvalue]
      show (if c.toNat - 48 < 10 then _ else _) = some n ↔ _
      rw [if_pos hlt, ih, Nat.mul_comm value 10]
      rw [and_assoc, and_iff_right hc]
      rfl
    · refine ⟨fun hread => ?_, fun h => absurd h.1.1 hc⟩
      exfalso
      -- letters have values of ten and more
      cases hvalue : digitValue? c with
      | none =>
        rw [hvalue] at hread
        cases hread
      | some d =>
        rw [hvalue] at hread
        by_cases hlt : d < 10
        · exact hc (digitValue?_lt_ten_iff.mp ⟨hvalue, hlt⟩).1
        · simp [hlt] at hread

theorem readDigits?_eq_some_iff :
    readDigits? 10 ds = some n ↔ IsDigits ds ∧ n = Nat.ofDigitChars 10 ds 0 := by
  rw [readDigits?, IsDigits, and_assoc]
  cases ds with
  | nil => simp
  | cons c rest => simp [readMore?_eq_some_iff]

theorem not_isDigits_plus : ¬ IsDigits ('+' :: ds) :=
  fun h => absurd (h.2 '+' List.mem_cons_self) (by decide)

theorem not_isDigits_minus : ¬ IsDigits ('-' :: ds) :=
  fun h => absurd (h.2 '-' List.mem_cons_self) (by decide)

/-- A sign before the number that was read of a magnitude. -/
theorem map_sign_eq_some_iff {magnitude : Option Nat} (sign : Int → Int) :
    Option.map sign (do let n ← magnitude; pure (n : Int)) = some i ↔
      ∃ n : Nat, magnitude = some n ∧ i = sign n := by
  cases magnitude <;> simp [eq_comm]

theorem map_readDigits?_eq_some_iff (sign : Int → Int) :
    Option.map sign (do let n ← readDigits? 10 ds; pure (n : Int)) = some i ↔
      IsDigits ds ∧ i = sign (Nat.ofDigitChars 10 ds 0 : Nat) := by
  rw [map_sign_eq_some_iff]
  simp only [readDigits?_eq_some_iff, and_assoc, exists_and_left, exists_eq_left]

/-- What is read as a signed number in base ten are the numerals. -/
theorem readSigned?_eq_some_iff : readSigned? 10 cs = some i ↔ IsNumeral cs i := by
  constructor
  · intro h
    rw [readSigned?.eq_def] at h
    split at h <;> obtain ⟨hdigits, rfl⟩ := (map_readDigits?_eq_some_iff _).mp h
    · exact .minus hdigits
    · exact .plus hdigits
    · exact .bare hdigits
  · intro h
    cases h with
    | plus hdigits => exact (map_readDigits?_eq_some_iff _).mpr ⟨hdigits, rfl⟩
    | minus hdigits => exact (map_readDigits?_eq_some_iff _).mpr ⟨hdigits, rfl⟩
    | bare hdigits =>
      rw [readSigned?.eq_def]
      split
      · exact absurd hdigits not_isDigits_minus
      · exact absurd hdigits not_isDigits_plus
      · exact (map_readDigits?_eq_some_iff _).mpr ⟨hdigits, rfl⟩

/-- What is read as a 32-bit number are the numerals for numbers in that range. -/
theorem readInt32?_eq_some_iff : readInt32? cs = some i ↔ IsNumeral cs i ∧ IsInt32 i := by
  rw [readInt32?, readBetween?, ← readSigned?_eq_some_iff, IsInt32]
  cases readSigned? 10 cs with
  | none => simp
  | some j =>
    show (if _ then some j else none) = some i ↔ _
    rw [Option.some.injEq]
    split
    · rw [Option.some.injEq]
      omega
    · refine ⟨nofun, ?_⟩
      rintro ⟨rfl, h⟩
      omega

theorem isNumeral_minus_iff :
    IsNumeral ('-' :: ds) i ↔ IsDigits ds ∧ i = -(Nat.ofDigitChars 10 ds 0 : Nat) := by
  constructor
  · intro h
    cases h with
    | bare hdigits => exact absurd hdigits not_isDigits_minus
    | minus hdigits => exact ⟨hdigits, rfl⟩
  · rintro ⟨hdigits, rfl⟩
    exact .minus hdigits

theorem isNumeral_bare_iff (h : ∀ c ∈ ds, c ≠ '-' ∧ c ≠ '+') :
    IsNumeral ds i ↔ IsDigits ds ∧ i = (Nat.ofDigitChars 10 ds 0 : Nat) := by
  constructor
  · intro hnumeral
    cases hnumeral with
    | bare hdigits => exact ⟨hdigits, rfl⟩
    | plus => exact absurd rfl (h '+' List.mem_cons_self).2
    | minus => exact absurd rfl (h '-' List.mem_cons_self).1
  · rintro ⟨hdigits, rfl⟩
    exact .bare hdigits

/-- A numeral stands for one number. -/
theorem IsNumeral.unique {j : Int} (hi : IsNumeral cs i) (hj : IsNumeral cs j) : i = j :=
  Option.some.inj ((readSigned?_eq_some_iff.mpr hi).symm.trans (readSigned?_eq_some_iff.mpr hj))

end Reading

/-! ### Writing -/

theorem decimalDigits_eq_toDigits (n : Nat) : decimalDigits n = Nat.toDigits 10 n := by
  have hdigit : ∀ d : Fin 10, Char.ofNat (48 + d) = Nat.digitChar d := by decide
  induction n using decimalDigits.induct with
  | case1 n hn =>
    rw [decimalDigits, if_pos hn, Nat.toDigits_of_lt_base hn, hdigit ⟨n, hn⟩]
  | case2 n hn ih =>
    rw [decimalDigits, if_neg hn, ih, hdigit ⟨n % 10, Nat.mod_lt n (by decide)⟩]
    exact (Nat.toDigits_of_base_le (by decide) (Nat.le_of_not_lt hn)).symm

theorem isDigits_decimalDigits (n : Nat) : IsDigits (decimalDigits n) := by
  rw [decimalDigits_eq_toDigits]
  exact ⟨Nat.toDigits_ne_nil, fun _ => Nat.isDigit_of_mem_toDigits (by decide) (by decide)⟩

theorem ofDigitChars_decimalDigits (n : Nat) : Nat.ofDigitChars 10 (decimalDigits n) 0 = n := by
  rw [decimalDigits_eq_toDigits, Nat.ofDigitChars_ten_toDigits]

/-- Every integer is written as a numeral that stands for it. -/
theorem isNumeral_decimalInt (i : Int) : IsNumeral (decimalInt i).toList i := by
  have hdigits := isDigits_decimalDigits i.natAbs
  have hvalue := ofDigitChars_decimalDigits i.natAbs
  rw [decimalInt]
  split
  · have h := IsNumeral.minus hdigits
    rwa [hvalue, show -(i.natAbs : Int) = i by omega, ← String.toList_ofList (l := '-' :: _)] at h
  · have h := IsNumeral.bare hdigits
    rwa [hvalue, show (i.natAbs : Int) = i by omega, ← String.toList_ofList (l := decimalDigits _)]
      at h

/-! ### Blanks -/

theorem not_isBlank_of_isDigit {c : Char} (h : c.isDigit = true) : isBlank c = false := by
  rw [isDigit_iff] at h
  simp only [isBlank, Bool.or_eq_false_iff, Bool.and_eq_false_iff, decide_eq_false_iff_not,
    beq_eq_false_iff_ne]
  omega

theorem trimChars_of_not_blank {cs : List Char} (h : ∀ c ∈ cs, isBlank c = false) :
    trimChars cs = cs := by
  have hfront : ∀ {ds : List Char}, (∀ c ∈ ds, isBlank c = false) → trimFront ds = ds :=
    fun hds => List.dropWhile_eq_self_iff.mpr fun hpos => by
      simpa using hds _ (List.getElem_mem hpos)
  rw [trimChars, hfront h, trimBack, hfront (by simpa using h), List.reverse_reverse]

theorem IsNumeral.isDigit_or_sign {cs : List Char} {i : Int} (h : IsNumeral cs i) {c : Char}
    (hc : c ∈ cs) : c.isDigit = true ∨ c = '+' ∨ c = '-' := by
  cases h with
  | bare hdigits => exact .inl (hdigits.2 c hc)
  | plus hdigits =>
    exact (List.mem_cons.mp hc).elim (fun heq => .inr (.inl heq)) fun hc => .inl (hdigits.2 c hc)
  | minus hdigits =>
    exact (List.mem_cons.mp hc).elim (fun heq => .inr (.inr heq)) fun hc => .inl (hdigits.2 c hc)

/-- A numeral holds no blanks. -/
theorem IsNumeral.trimChars_eq {cs : List Char} {i : Int} (h : IsNumeral cs i) :
    trimChars cs = cs := by
  refine trimChars_of_not_blank fun c hc => ?_
  rcases h.isDigit_or_sign hc with hdigit | rfl | rfl
  · exact not_isBlank_of_isDigit hdigit
  · decide
  · decide

end LogSetup.Text
