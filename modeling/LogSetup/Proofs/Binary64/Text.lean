import LogSetup.Binary64.Layout
import LogSetup.Proofs.Binary64.Shortest
import LogSetup.Proofs.Text.Numerals

/-!
# The text of a number

In a layout without exponents, a number is written as a numeral exactly when its value is a whole
number, as long as that is not too large; the numeral stands for the value.

## Main definitions

- `Binary64.value?` : the value of a finite number

## Main statements

- `Binary64.isNumeral_text_iff` : which numbers are written as numerals
-/

namespace LogSetup.Binary64

open Text

/-- The value of a finite number. -/
def value? : Binary64 → Option ℚ
  | .finite negative m e => some (if negative then -magnitude m e else magnitude m e)
  | _ => none

/-- The value of a finite number is its magnitude with a sign. -/
theorem magnitude_eq_natAbs {negative : Bool} {m : Nat} {e i : Int}
    (h : value? (.finite negative m e) = some (i : ℚ)) : magnitude m e = (i.natAbs : Nat) := by
  have hmagnitude : (0 : ℚ) ≤ magnitude m e := by
    rw [magnitude]
    positivity
  rw [Nat.cast_natAbs, Int.cast_abs, ← Option.some.inj h]
  split
  · rw [abs_neg, abs_of_nonneg hmagnitude]
  · rw [abs_of_nonneg hmagnitude]

/-- Integers of more than 63 binary digits are rounded to large numbers. -/
theorem value?_ofNat_ne {n : Nat} (hn : 2 ^ 63 ≤ n) {i : Int} (hi : i.natAbs < 2 ^ 53) :
    value? (ofNat n) ≠ some (i : ℚ) := by
  intro hvalue
  have hcanonical := isCanonical_ofNat n
  cases hx : ofNat n with
  | nan | infinite => rw [hx] at hvalue; cases hvalue
  | finite negative m e =>
    rw [hx] at hvalue hcanonical
    -- a significand of 53 binary digits leaves a last place that is more than one
    have hexponent : 0 < e := by
      have hlog : 63 ≤ n.log2 := (Nat.le_log2 (by omega)).mpr hn
      have hle := leastExponent_le_of_ofRatio (by omega) hx
      rw [leastExponent, show Nat.log2 1 = 0 from rfl] at hle
      omega
    have hlarge := hcanonical.le_magnitude hexponent
    rw [magnitude_eq_natAbs hvalue] at hlarge
    exact absurd hi (not_lt.mpr (by exact_mod_cast hlarge))

/-! ### Digits and a point -/

section Positional

variable {ds : List Char} {point : Int}

theorem isDigits_append {es : List Char} (hds : IsDigits ds) (hes : ∀ d ∈ es, d.isDigit = true) :
    IsDigits (ds ++ es) := by
  refine ⟨fun h => hds.1 (List.append_eq_nil_iff.mp h).1, fun d hd => ?_⟩
  exact (List.mem_append.mp hd).elim (hds.2 d) (hes d)

/-- A point behind all digits is made up for by zeros. -/
theorem positionalText_whole (hds : IsDigits ds) (k : Nat) :
    IsDigits (positionalText false ds (ds.length + k)) ∧
      Nat.ofDigitChars 10 (positionalText false ds (ds.length + k)) 0 =
        Nat.ofDigitChars 10 ds 0 * 10 ^ k := by
  have htext : positionalText false ds (ds.length + k) = ds ++ List.replicate k '0' := by
    rw [positionalText, if_pos (by omega)]
    simp
  rw [htext]
  constructor
  · refine isDigits_append hds fun d hd => ?_
    rw [List.eq_of_mem_replicate hd]
    decide
  · rw [Nat.ofDigitChars_append, Nat.ofDigitChars_replicate_zero, Nat.mul_comm]

/-- A point among or before the digits is written. -/
theorem point_mem_positionalText (hpoint : point < ds.length) (wholeMark : Bool) :
    '.' ∈ positionalText wholeMark ds point := by
  rw [positionalText, if_neg (by omega)]
  split <;> simp

theorem isDigit_or_point_of_mem (hds : IsDigits ds) {c : Char}
    (h : c ∈ positionalText false ds point) : c.isDigit = true ∨ c = '.' := by
  have hzero : ∀ {k : Nat}, c ∈ List.replicate k '0' → c.isDigit = true := fun hc => by
    rw [List.eq_of_mem_replicate hc]
    decide
  rw [positionalText] at h
  split at h
  · rcases List.mem_append.mp h with h | h
    · exact .inl ((List.mem_append.mp h).elim (hds.2 c) hzero)
    · cases h
  · split at h
    · rcases List.mem_append.mp h with h | h
      · exact .inl (hds.2 c (List.mem_of_mem_take h))
      · exact (List.mem_cons.mp h).elim .inr fun h => .inl (hds.2 c (List.mem_of_mem_drop h))
    · rcases List.mem_cons.mp h with rfl | h
      · exact .inl (by decide)
      · refine (List.mem_cons.mp h).elim .inr fun h => .inl ?_
        exact (List.mem_append.mp h).elim hzero (hds.2 c)

theorem not_point_mem_of_isDigits (hds : IsDigits ds) : '.' ∉ ds :=
  fun h => absurd (hds.2 '.' h) (by decide)

end Positional

/-! ### The magnitude of a number -/

section Magnitude

variable {l : Layout} (hpositional : l.positional = none) (hmark : l.wholeMark = false)

include hpositional hmark

theorem magnitude_eq {m : Nat} {e : Int} (hm : m ≠ 0) :
    l.magnitude m e = positionalText false (decimalDigits (shortest m e).1)
      ((decimalDigits (shortest m e).1).length + (shortest m e).2) := by
  rw [Layout.magnitude, if_neg hm, hpositional, hmark]

theorem isDigit_or_point_of_mem_magnitude {m : Nat} {e : Int} {c : Char}
    (h : c ∈ l.magnitude m e) : c.isDigit = true ∨ c = '.' := by
  by_cases hm : m = 0
  · rw [Layout.magnitude, if_pos hm, hmark] at h
    rw [List.mem_singleton.mp h]
    exact .inl (by decide)
  · rw [magnitude_eq hpositional hmark hm] at h
    exact isDigit_or_point_of_mem (isDigits_decimalDigits _) h

/-- The magnitude is written with digits alone exactly when it is a whole number. -/
theorem isDigits_magnitude_iff {m : Nat} {e : Int} (h : IsNormal m e) {n : Nat} (hn : n < 2 ^ 52) :
    IsDigits (l.magnitude m e) ∧ Nat.ofDigitChars 10 (l.magnitude m e) 0 = n ↔
      Binary64.magnitude m e = n := by
  by_cases hm : m = 0
  · rw [Layout.magnitude, if_pos hm, hmark, Binary64.magnitude, hm, Nat.cast_zero, zero_mul]
    have hzero : IsDigits ['0'] := ⟨List.cons_ne_nil _ _, List.forall_mem_singleton.mpr rfl⟩
    exact (and_iff_right hzero).trans (Nat.cast_inj (R := ℚ)).symm
  · have hdigits := isDigits_decimalDigits (shortest m e).1
    rw [magnitude_eq hpositional hmark hm, ← shortest_eq_whole_iff h hm hn]
    constructor
    · rintro ⟨hall, hvalue⟩
      have hpower : 0 ≤ (shortest m e).2 := by
        by_contra hneg
        exact not_point_mem_of_isDigits hall (point_mem_positionalText (by omega) false)
      obtain ⟨k, hk⟩ := Int.eq_ofNat_of_zero_le hpower
      rw [hk, (positionalText_whole hdigits k).2, ofDigitChars_decimalDigits] at hvalue
      exact ⟨k, hk, hvalue⟩
    · rintro ⟨k, hk, hvalue⟩
      rw [hk, (positionalText_whole hdigits k).2, ofDigitChars_decimalDigits]
      exact ⟨(positionalText_whole hdigits k).1, hvalue⟩

/-- A number is written as a numeral for a number that is not too large exactly when that is its
value. -/
theorem isNumeral_text_iff {negative : Bool} {m : Nat} {e : Int} (h : IsNormal m e) {i : Int}
    (hi : i.natAbs < 2 ^ 52) :
    IsNumeral (l.text (.finite negative m e)).toList i ↔
      value? (.finite negative m e) = some (i : ℚ) := by
  have hsign : ∀ c ∈ l.magnitude m e, c ≠ '-' ∧ c ≠ '+' := by
    intro c hc
    rcases isDigit_or_point_of_mem_magnitude hpositional hmark hc with hdigit | rfl
    · constructor <;> rintro rfl <;> exact absurd hdigit (by decide)
    · decide
  rw [Layout.text, String.toList_ofList]
  constructor
  · intro hnumeral
    rw [value?, Option.some.injEq]
    cases negative with
    | true =>
      obtain ⟨hdigits, rfl⟩ := isNumeral_minus_iff.mp hnumeral
      rw [(isDigits_magnitude_iff hpositional hmark h (by omega)).mp ⟨hdigits, rfl⟩]
      push_cast
      rfl
    | false =>
      obtain ⟨hdigits, rfl⟩ := (isNumeral_bare_iff hsign).mp hnumeral
      rw [(isDigits_magnitude_iff hpositional hmark h (by omega)).mp ⟨hdigits, rfl⟩]
      push_cast
      rfl
  · intro hvalue
    have hnat := magnitude_eq_natAbs hvalue
    obtain ⟨hdigits, hread⟩ := (isDigits_magnitude_iff hpositional hmark h hi).mpr hnat
    rw [value?, Option.some.injEq, hnat] at hvalue
    cases negative with
    | true =>
      rw [if_pos rfl] at hvalue
      have hneg : -(i.natAbs : Int) = i := by exact_mod_cast hvalue
      exact isNumeral_minus_iff.mpr ⟨hdigits, by omega⟩
    | false =>
      rw [if_neg Bool.false_ne_true] at hvalue
      have hpos : (i.natAbs : Int) = i := by
        rw [← Int.cast_inj (α := ℚ), Int.cast_natCast]
        exact hvalue
      exact (isNumeral_bare_iff hsign).mpr ⟨hdigits, by omega⟩

end Magnitude

end LogSetup.Binary64
