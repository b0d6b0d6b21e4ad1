import LogSetup.Binary64.Reading
import Mathlib.Algebra.Order.Field.Power
import Mathlib.Tactic.FieldSimp
import Mathlib.Tactic.Linarith
import Mathlib.Tactic.NormNum
import Mathlib.Tactic.Positivity

/-!
# The normal form of finite numbers

A finite number has a significand of at most 53 binary digits. It has all 53 of them unless its
exponent is the least one. Rounding yields numbers in this form, and therefore so does reading.

## Main definitions

- `Binary64.magnitude` : the value of a finite number without its sign
- `Binary64.IsCanonical` : the normal form

## Main statements

- `Binary64.isCanonical_ofRatio` : rounded fractions are in normal form
- `Binary64.isCanonical_of_read?` : and so are numbers that were read
-/

namespace LogSetup.Binary64

/-- The value of a finite number without its sign. -/
def magnitude (m : Nat) (e : Int) : ℚ := m * 2 ^ e

/-- The normal form of a significand and an exponent. -/
structure IsNormal (m : Nat) (e : Int) : Prop where
  lt : m < 2 ^ 53
  min_le : minExponent ≤ e
  le_max : e ≤ maxExponent
  full : 2 ^ 52 ≤ m ∨ e = minExponent

/-- A number that is in normal form if it is finite. -/
def IsCanonical : Binary64 → Prop
  | .finite _ m e => IsNormal m e
  | _ => True

theorem leadingBit_eq : leadingBit = 2 ^ 52 := by decide

theorem two_mul_leadingBit : 2 * leadingBit = 2 ^ 53 := by decide

/-- A number whose last place is more than one is large. -/
theorem IsNormal.le_magnitude {m : Nat} {e : Int} (h : IsNormal m e) (he : 0 < e) :
    (2 ^ 53 : ℚ) ≤ magnitude m e := by
  have hfull : 2 ^ 52 ≤ m := h.full.resolve_right (by rw [minExponent]; omega)
  calc (2 ^ 53 : ℚ) = 2 ^ 52 * 2 ^ (1 : Int) := by norm_num
    _ ≤ m * 2 ^ e := by
      gcongr
      · exact_mod_cast hfull
      · exact one_le_two
      · omega

/-! ### Rounding to a whole number -/

section Rounding

variable {num den k : Nat}

theorem le_roundHalfEven (h : k * den ≤ num) (hden : 0 < den) : k ≤ roundHalfEven num den := by
  have hfloor : k ≤ num / den := (Nat.le_div_iff_mul_le hden).mpr h
  rw [roundHalfEven]
  split_ifs <;> omega

theorem roundHalfEven_le (h : num < k * den) (hden : 0 < den) : roundHalfEven num den ≤ k := by
  have hfloor : num / den < k := (Nat.div_lt_iff_lt_mul hden).mpr h
  rw [roundHalfEven]
  split_ifs <;> omega

end Rounding

/-! ### Scaling by a power of two -/

section Scaling

variable {num den : Nat}

theorem overPower_pos (num : Nat) (hden : 0 < den) (e : Int) : 0 < (overPower num den e).2 := by
  rw [overPower]
  split
  · exact Nat.mul_pos hden (Nat.pow_pos (by decide))
  · exact hden

/-- A fraction divided by a power of two. -/
theorem cast_overPower (hden : 0 < den) (e : Int) :
    ((overPower num den e).1 : ℚ) = num / den / 2 ^ e * (overPower num den e).2 := by
  have hne : (den : ℚ) ≠ 0 := Nat.cast_ne_zero.mpr (Nat.pos_iff_ne_zero.mp hden)
  rw [overPower]
  split
  · next he =>
    obtain ⟨n, rfl⟩ := Int.eq_ofNat_of_zero_le he
    simp only [Int.toNat_natCast, zpow_natCast, Nat.pow_eq, Nat.cast_mul, Nat.cast_pow,
      Nat.cast_ofNat]
    field_simp
  · next he =>
    obtain ⟨n, rfl⟩ : ∃ n : Nat, e = -(n : Int) := ⟨(-e).toNat, by omega⟩
    simp only [neg_neg, Int.toNat_natCast, zpow_neg, zpow_natCast, Nat.pow_eq, Nat.cast_mul,
      Nat.cast_pow, Nat.cast_ofNat]
    field_simp

theorem le_overPower_iff (hden : 0 < den) (e : Int) (k : Nat) :
    k * (overPower num den e).2 ≤ (overPower num den e).1 ↔ (k : ℚ) * 2 ^ e ≤ num / den := by
  have hpos : (0 : ℚ) < (overPower num den e).2 := Nat.cast_pos.mpr (overPower_pos num hden e)
  have htwo : (0 : ℚ) < 2 ^ e := by positivity
  rw [← Nat.cast_le (α := ℚ), Nat.cast_mul, cast_overPower hden, mul_le_mul_iff_left₀ hpos,
    le_div_iff₀ htwo]

theorem overPower_lt_iff (hden : 0 < den) (e : Int) (k : Nat) :
    (overPower num den e).1 < k * (overPower num den e).2 ↔ (num / den : ℚ) < k * 2 ^ e := by
  rw [← not_le, le_overPower_iff hden, not_le]

/-- The binary lengths of numerator and denominator enclose a fraction. -/
theorem log2_enclose (hnum : num ≠ 0) (hden : den ≠ 0) :
    (2 : ℚ) ^ ((num.log2 : Int) - den.log2 - 1) < num / den ∧
      (num / den : ℚ) < 2 ^ ((num.log2 : Int) - den.log2 + 1) := by
  have hdenPos : (0 : ℚ) < den := Nat.cast_pos.mpr (Nat.pos_of_ne_zero hden)
  have low : ∀ {n : Nat}, n ≠ 0 → (2 : ℚ) ^ (n.log2 : Int) ≤ n := fun hn => by
    rw [zpow_natCast]
    exact_mod_cast Nat.log2_self_le hn
  have high : ∀ n : Nat, (n : ℚ) < 2 ^ ((n.log2 : Int) + 1) := fun n => by
    rw [show (n.log2 : Int) + 1 = ((n.log2 + 1 : Nat) : Int) by omega, zpow_natCast]
    exact_mod_cast Nat.lt_log2_self
  constructor
  · rw [lt_div_iff₀ hdenPos]
    calc (2 : ℚ) ^ ((num.log2 : Int) - den.log2 - 1) * den
        < 2 ^ ((num.log2 : Int) - den.log2 - 1) * 2 ^ ((den.log2 : Int) + 1) := by
          gcongr
          exact high den
      _ = 2 ^ (num.log2 : Int) := by
          rw [← zpow_add₀ two_ne_zero]
          congr 1
          omega
      _ ≤ num := low hnum
  · rw [div_lt_iff₀ hdenPos]
    calc (num : ℚ) < 2 ^ ((num.log2 : Int) + 1) := high num
      _ = 2 ^ ((num.log2 : Int) - den.log2 + 1) * 2 ^ (den.log2 : Int) := by
          rw [← zpow_add₀ two_ne_zero]
          congr 1
          omega
      _ ≤ 2 ^ ((num.log2 : Int) - den.log2 + 1) * den := by
          gcongr
          exact low hden

end Scaling

/-! ### Rounding to 53 binary digits -/

section Rounding

variable {num den : Nat}

/-- The first guess at the exponent of a rounded fraction. -/
def leastExponent (num den : Nat) : Int := max ((num.log2 : Int) - den.log2 - 53) minExponent

/-- The exponent of a rounded fraction, unless rounding makes the significand one digit longer. -/
def roundedExponent (num den : Nat) : Int :=
  let scaled := overPower num den (leastExponent num den)
  if scaled.2 * (2 * leadingBit) ≤ scaled.1 then leastExponent num den + 1
  else leastExponent num den

/-- The significand that belongs to `roundedExponent`. -/
def roundedSignificand (num den : Nat) : Nat :=
  let scaled := overPower num den (roundedExponent num den)
  roundHalfEven scaled.1 scaled.2

theorem ofRatio_eq (negative : Bool) (hnum : num ≠ 0) :
    ofRatio negative num den =
      let m := roundedSignificand num den
      let e := roundedExponent num den
      if maxExponent < (if m = 2 * leadingBit then e + 1 else e) then .infinite negative
      else .finite negative (if m = 2 * leadingBit then leadingBit else m)
        (if m = 2 * leadingBit then e + 1 else e) := by
  rw [ofRatio, if_neg hnum]
  rfl

theorem leastExponent_le_of_ofRatio {negative sign : Bool} {m : Nat} {e : Int} (hnum : num ≠ 0)
    (h : ofRatio negative num den = .finite sign m e) : leastExponent num den ≤ e := by
  have hrounded : leastExponent num den ≤ roundedExponent num den := by
    rw [roundedExponent]
    split <;> omega
  rw [ofRatio_eq negative hnum] at h
  dsimp only at h
  split_ifs at h <;> cases h <;> omega

/-- The exponent leaves at most 53 binary digits, and all of them if it may. -/
theorem roundedExponent_bounds (hnum : num ≠ 0) (hden : den ≠ 0) :
    minExponent ≤ roundedExponent num den ∧
      (num / den : ℚ) < (2 ^ 53 : Nat) * 2 ^ roundedExponent num den ∧
      (((2 ^ 52 : Nat) : ℚ) * 2 ^ roundedExponent num den ≤ num / den ∨
        roundedExponent num den = minExponent) := by
  obtain ⟨hbelow, habove⟩ := log2_enclose hnum hden
  have hstep : ∀ k : Int, (2 : ℚ) ^ (k + 1) = 2 * 2 ^ k := fun k => by
    rw [zpow_add_one₀ two_ne_zero, mul_comm]
  have hpos := Nat.pos_of_ne_zero hden
  have hmin : minExponent ≤ leastExponent num den := le_max_right _ _
  have hlow : leastExponent num den = max ((num.log2 : Int) - den.log2 - 53) minExponent := rfl
  rw [roundedExponent]
  generalize leastExponent num den = low at hmin hlow
  split
  · next hfull =>
    -- the fraction has one binary digit more than the first guess allows
    rw [Nat.mul_comm, two_mul_leadingBit, le_overPower_iff hpos] at hfull
    refine ⟨by omega, ?_, .inl ?_⟩
    · calc (num / den : ℚ) < 2 ^ ((num.log2 : Int) - den.log2 + 1) := habove
        _ ≤ 2 ^ (low + 1 + 53) := zpow_le_zpow_right₀ one_le_two (by omega)
        _ = (2 ^ 53 : Nat) * 2 ^ (low + 1) := by
          rw [zpow_add₀ two_ne_zero, mul_comm]
          norm_num
    · rw [hstep]
      push_cast at hfull ⊢
      linarith
  · next hfits =>
    rw [Nat.mul_comm, two_mul_leadingBit, le_overPower_iff hpos] at hfits
    refine ⟨hmin, not_le.mp hfits, ?_⟩
    rcases max_choice ((num.log2 : Int) - den.log2 - 53) minExponent with hmax | hmax
    · refine .inl ?_
      calc ((2 ^ 52 : Nat) : ℚ) * 2 ^ low = 2 ^ ((num.log2 : Int) - den.log2 - 1) := by
            rw [show (num.log2 : Int) - den.log2 - 1 = low + 52 by omega, zpow_add₀ two_ne_zero,
              mul_comm]
            norm_num
        _ ≤ num / den := hbelow.le
    · exact .inr (hlow.trans hmax)

theorem roundedSignificand_bounds (hnum : num ≠ 0) (hden : den ≠ 0) :
    roundedSignificand num den ≤ 2 ^ 53 ∧
      (2 ^ 52 ≤ roundedSignificand num den ∨ roundedExponent num den = minExponent) := by
  have hpos := Nat.pos_of_ne_zero hden
  have hscaled := overPower_pos num hpos (roundedExponent num den)
  obtain ⟨-, hlt, hfull⟩ := roundedExponent_bounds hnum hden
  constructor
  · exact roundHalfEven_le ((overPower_lt_iff hpos _ _).mpr hlt) hscaled
  · exact hfull.imp_left fun h => le_roundHalfEven ((le_overPower_iff hpos _ _).mpr h) hscaled

end Rounding

/-! ### Rounded and read numbers -/

theorem isCanonical_zero (negative : Bool) : IsCanonical (zero negative) :=
  ⟨by decide, le_rfl, by decide, .inr rfl⟩

/-- Rounded fractions are in normal form. -/
theorem isCanonical_ofRatio (negative : Bool) (num : Nat) {den : Nat} (hden : den ≠ 0) :
    IsCanonical (ofRatio negative num den) := by
  by_cases hnum : num = 0
  · rw [ofRatio, if_pos hnum]
    exact isCanonical_zero negative
  · obtain ⟨hmin, -⟩ := roundedExponent_bounds hnum hden
    obtain ⟨hle, hfull⟩ := roundedSignificand_bounds hnum hden
    rw [ofRatio_eq negative hnum]
    by_cases hcarry : roundedSignificand num den = 2 * leadingBit
    · -- rounding has made the significand one digit longer
      simp only [if_pos hcarry]
      split
      · trivial
      · exact ⟨by rw [leadingBit_eq]; norm_num, by omega, by omega, .inl leadingBit_eq.ge⟩
    · simp only [if_neg hcarry]
      rw [two_mul_leadingBit] at hcarry
      split
      · trivial
      · exact ⟨lt_of_le_of_ne hle hcarry, hmin, by omega, hfull⟩

theorem isCanonical_ofNat (n : Nat) : IsCanonical (ofNat n) :=
  isCanonical_ofRatio false n one_ne_zero

theorem isCanonical_ofDecimal (negative : Bool) (digits : Nat) (power : Int) :
    IsCanonical (ofDecimal negative digits power) := by
  rw [ofDecimal]
  split_ifs
  · exact isCanonical_zero negative
  · trivial
  · exact isCanonical_zero negative
  · exact isCanonical_ofRatio _ _ one_ne_zero
  · exact isCanonical_ofRatio _ _ (Nat.pow_pos (by decide)).ne'

theorem isCanonical_of_readUnsigned? {negative : Bool} {cs : List Char} {x : Binary64}
    (h : readUnsigned? negative cs = some x) : IsCanonical x := by
  simp only [readUnsigned?] at h
  split_ifs at h
  obtain ⟨e, -, rfl⟩ := Option.map_eq_some_iff.mp h
  exact isCanonical_ofDecimal _ _ _

/-- Numbers that were read are in normal form. -/
theorem isCanonical_of_read? {cs : List Char} {x : Binary64} (h : read? cs = some x) :
    IsCanonical x := by
  rw [read?.eq_def] at h
  split at h <;> exact isCanonical_of_readUnsigned? h

end LogSetup.Binary64
