import LogSetup.Binary64.Shortest
import LogSetup.Proofs.Binary64.Canonical

/-!
# The decimal of a number

The search for the shortest decimal always succeeds, and what it finds lies in the rounding
interval. A number whose value is whole and not too large is written as that value, and no other
number is written as a whole number of that size.

## Main definitions

- `Binary64.Interval.Contains` : a value lies in a rounding interval

## Main statements

- `Binary64.Interval.nearest?_ne_none_iff` : the two points next to the number decide for a grid
- `Binary64.shortest_mem` : the decimal lies in the rounding interval
- `Binary64.shortest_eq_whole_iff` : which numbers are written as whole numbers
-/

namespace LogSetup.Binary64

namespace Interval

/-- A value lies in a rounding interval. -/
def Contains (i : Interval) (x : ℚ) : Prop :=
  if i.closed then i.low * 2 ^ i.exponent ≤ x ∧ x ≤ i.high * 2 ^ i.exponent
  else i.low * 2 ^ i.exponent < x ∧ x < i.high * 2 ^ i.exponent

variable {i : Interval} {power : Int} {d : Nat}

/-! ### Grids -/

/-- Powers with a positive and with a negative exponent, as natural numbers. -/
theorem zpow_eq_div (base : Nat) (hbase : base ≠ 0) (k : Int) :
    (base : ℚ) ^ k = (base ^ k.toNat : Nat) / (base ^ (-k).toNat : Nat) := by
  have hne : (base : ℚ) ≠ 0 := Nat.cast_ne_zero.mpr hbase
  rw [Nat.cast_pow, Nat.cast_pow, ← zpow_natCast, ← zpow_natCast, ← zpow_sub₀ hne]
  congr 1
  omega

theorem scales_eq (i : Interval) (power : Int) :
    ((i.scales power).1 : ℚ) * 2 ^ i.exponent = 10 ^ power * (i.scales power).2 := by
  have hten : ((10 ^ (-power).toNat : Nat) : ℚ) ≠ 0 := by positivity
  have htwo : ((2 ^ (-i.exponent).toNat : Nat) : ℚ) ≠ 0 := by positivity
  have h10 := zpow_eq_div 10 (by decide) power
  have h2 := zpow_eq_div 2 (by decide) i.exponent
  rw [Nat.cast_ofNat] at h10 h2
  rw [h10, h2, scales, Nat.pow_eq, Nat.pow_eq, Nat.pow_eq, Nat.pow_eq, Nat.cast_mul, Nat.cast_mul]
  field_simp

theorem scales_pos (i : Interval) (power : Int) :
    0 < (i.scales power).1 ∧ 0 < (i.scales power).2 :=
  ⟨Nat.mul_pos (Nat.pow_pos (by decide)) (Nat.pow_pos (by decide)),
    Nat.mul_pos (Nat.pow_pos (by decide)) (Nat.pow_pos (by decide))⟩

/-- The factors compare a point of a grid with a multiple of the power of two. -/
theorem mul_scales_le_iff (x : Nat) :
    d * (i.scales power).1 ≤ x * (i.scales power).2 ↔
      (d : ℚ) * 10 ^ power ≤ x * 2 ^ i.exponent := by
  have hpos : (0 : ℚ) < (i.scales power).2 := Nat.cast_pos.mpr (scales_pos i power).2
  have htwo : (0 : ℚ) < 2 ^ i.exponent := by positivity
  rw [← Nat.cast_le (α := ℚ), Nat.cast_mul, Nat.cast_mul, ← mul_le_mul_iff_left₀ htwo, mul_assoc,
    scales_eq, ← mul_assoc, mul_right_comm _ _ ((2 : ℚ) ^ _), mul_le_mul_iff_left₀ hpos]

theorem le_mul_scales_iff (x : Nat) :
    x * (i.scales power).2 ≤ d * (i.scales power).1 ↔
      (x : ℚ) * 2 ^ i.exponent ≤ d * 10 ^ power := by
  have hpos : (0 : ℚ) < (i.scales power).2 := Nat.cast_pos.mpr (scales_pos i power).2
  have htwo : (0 : ℚ) < 2 ^ i.exponent := by positivity
  rw [← Nat.cast_le (α := ℚ), Nat.cast_mul, Nat.cast_mul, ← mul_le_mul_iff_left₀ htwo,
    mul_assoc (d : ℚ), scales_eq, ← mul_assoc, mul_right_comm _ _ ((2 : ℚ) ^ _),
    mul_le_mul_iff_left₀ hpos]

theorem holds_iff : i.holds power d = true ↔ i.Contains (d * 10 ^ power) := by
  have hholds : i.holds power d =
      if i.closed then
        decide (i.low * (i.scales power).2 ≤ d * (i.scales power).1) &&
          decide (d * (i.scales power).1 ≤ i.high * (i.scales power).2)
      else
        decide (i.low * (i.scales power).2 < d * (i.scales power).1) &&
          decide (d * (i.scales power).1 < i.high * (i.scales power).2) := rfl
  rw [hholds, Contains]
  split
  · rw [Bool.and_eq_true, decide_eq_true_eq, decide_eq_true_eq, le_mul_scales_iff,
      mul_scales_le_iff]
  · rw [Bool.and_eq_true, decide_eq_true_eq, decide_eq_true_eq, ← not_le, mul_scales_le_iff,
      ← not_le, le_mul_scales_iff, not_le, not_le]

/-- The interval has no gap, and its centre lies strictly between its ends. -/
theorem Contains.between {x y : ℚ} (hx : i.Contains x) (hlow : i.low < i.centre)
    (hhigh : i.centre < i.high)
    (h : x ≤ y ∧ y ≤ i.centre * 2 ^ i.exponent ∨ i.centre * 2 ^ i.exponent ≤ y ∧ y ≤ x) :
    i.Contains y := by
  have htwo : (0 : ℚ) < 2 ^ i.exponent := by positivity
  have hlow' : (i.low : ℚ) * 2 ^ i.exponent < i.centre * 2 ^ i.exponent := by gcongr
  have hhigh' : (i.centre : ℚ) * 2 ^ i.exponent < i.high * 2 ^ i.exponent := by gcongr
  rw [Contains] at hx ⊢
  split at hx
  · rw [if_pos ‹_›]
    rcases h with ⟨h, hy⟩ | ⟨hy, h⟩ <;> constructor <;> linarith
  · rw [if_neg ‹_›]
    rcases h with ⟨h, hy⟩ | ⟨hy, h⟩ <;> constructor <;> linarith

/-! ### The point of one grid -/

/-- The point of a grid next to the centre on the lower side. -/
def below (i : Interval) (power : Int) : Nat :=
  i.centre * (i.scales power).2 / (i.scales power).1

theorem below_le (i : Interval) (power : Int) :
    (i.below power : ℚ) * 10 ^ power ≤ i.centre * 2 ^ i.exponent :=
  (mul_scales_le_iff _).mp (Nat.div_mul_le_self _ _)

theorem lt_below_succ (i : Interval) (power : Int) :
    (i.centre : ℚ) * 2 ^ i.exponent < (i.below power + 1 : Nat) * 10 ^ power := by
  rw [← not_le, ← mul_scales_le_iff, not_le, below]
  exact Nat.lt_mul_of_div_lt (Nat.lt_succ_self _) (scales_pos i power).1

theorem of_nearest? (h : i.nearest? power = some d) :
    0 < d ∧ i.Contains (d * 10 ^ power) := by
  rw [← holds_iff]
  simp only [nearest?] at h
  split at h
  · next hbelow habove =>
    rw [Bool.and_eq_true, decide_eq_true_eq] at hbelow
    split_ifs at h <;> cases h
    · exact hbelow
    · exact ⟨Nat.succ_pos _, habove⟩
    · exact hbelow
    · exact ⟨Nat.succ_pos _, habove⟩
  · next hbelow _ =>
    rw [Bool.and_eq_true, decide_eq_true_eq] at hbelow
    cases h
    exact hbelow
  · next _ habove =>
    cases h
    exact ⟨Nat.succ_pos _, habove⟩
  · cases h

theorem not_holds_of_nearest? (h : i.nearest? power = none) :
    ¬ (0 < i.below power ∧ i.holds power (i.below power) = true) ∧
      ¬ i.holds power (i.below power + 1) = true := by
  simp only [nearest?] at h
  split at h
  · split_ifs at h
  · cases h
  · cases h
  · next hbelow habove =>
    rw [Bool.and_eq_false_iff, decide_eq_false_iff_not] at hbelow
    refine ⟨fun hin => ?_, fun hin => Bool.false_ne_true (habove.symm.trans hin)⟩
    rcases hbelow with hneg | hneg
    · exact hneg hin.1
    · exact Bool.false_ne_true (hneg.symm.trans hin.2)

/-- If a grid has a positive point in the interval, then one of the two points next to the centre
is one. -/
theorem nearest?_ne_none_iff (hlow : i.low < i.centre) (hhigh : i.centre < i.high) :
    i.nearest? power ≠ none ↔ ∃ d : Nat, 0 < d ∧ i.Contains (d * 10 ^ power) := by
  have hten : (0 : ℚ) < 10 ^ power := by positivity
  constructor
  · intro h
    obtain ⟨d, hd⟩ := Option.ne_none_iff_exists'.mp h
    exact ⟨d, of_nearest? hd⟩
  · rintro ⟨d, hd, hin⟩ hnone
    obtain ⟨hbelow, habove⟩ := not_holds_of_nearest? hnone
    rw [holds_iff] at hbelow habove
    rcases Nat.lt_or_ge (i.below power) d with hlt | hle
    · refine habove (hin.between hlow hhigh (.inr ⟨(lt_below_succ i power).le, ?_⟩))
      gcongr
      exact hlt
    · refine hbelow ⟨hd.trans_le hle, hin.between hlow hhigh (.inl ⟨?_, below_le i power⟩)⟩
      gcongr

/-! ### The search -/

theorem of_search {steps : Nat} {start : Int} (h : i.search steps start = some (d, power)) :
    i.nearest? power = some d ∧ ∀ p, power < p → p ≤ start → i.nearest? p = none := by
  induction steps generalizing start with
  | zero => cases h
  | succ steps ih =>
    rw [search] at h
    cases hnearest : i.nearest? start with
    | some c =>
      rw [hnearest] at h
      cases h
      exact ⟨hnearest, fun p hp hstart => absurd hp (by omega)⟩
    | none =>
      rw [hnearest] at h
      obtain ⟨hfound, hnone⟩ := ih h
      refine ⟨hfound, fun p hp hstart => ?_⟩
      rcases Int.lt_or_eq_of_le hstart with hlt | rfl
      · exact hnone p hp (by omega)
      · exact hnearest

theorem search_ne_none {steps : Nat} {start : Int} (hle : power ≤ start)
    (hsteps : start < power + steps) (h : i.nearest? power ≠ none) :
    i.search steps start ≠ none := by
  induction steps generalizing start with
  | zero => omega
  | succ steps ih =>
    rw [search]
    cases hnearest : i.nearest? start with
    | some c => exact nofun
    | none =>
      have hne : power ≠ start := fun heq => h (heq ▸ hnearest)
      exact ih (by omega) (by omega)

theorem contains_of_lt {x : ℚ} (hlow : i.low * 2 ^ i.exponent < x)
    (hhigh : x < i.high * 2 ^ i.exponent) : i.Contains x := by
  rw [Contains]
  split
  · exact ⟨hlow.le, hhigh.le⟩
  · exact ⟨hlow, hhigh⟩

theorem Contains.bounds {x : ℚ} (h : i.Contains x) :
    i.low * 2 ^ i.exponent ≤ x ∧ x ≤ i.high * 2 ^ i.exponent := by
  rw [Contains] at h
  split at h
  · exact h
  · exact ⟨h.1.le, h.2.le⟩

/-! ### The rounding interval of a number -/

section Number

variable {m : Nat} {e : Int}

theorem low_of_bounds (m : Nat) (e : Int) (hm : m ≠ 0) :
    4 * m ≤ (Interval.of m e).low + 2 ∧ (Interval.of m e).low < (Interval.of m e).centre := by
  rw [Interval.of]
  dsimp only
  split <;> omega

theorem exponent_of (m : Nat) (e : Int) : (Interval.of m e).exponent = e - 2 := rfl

theorem centre_lt_high (m : Nat) (e : Int) : (Interval.of m e).centre < (Interval.of m e).high :=
  Nat.lt_add_of_pos_right (by decide)

theorem quarters (m : Nat) (e : Int) :
    (4 * m : ℚ) * 2 ^ (Interval.of m e).exponent = magnitude m e := by
  show (4 * m : ℚ) * 2 ^ (e - 2) = m * 2 ^ e
  rw [zpow_sub₀ two_ne_zero, show (2 : ℚ) ^ (2 : Int) = 4 by norm_num]
  field_simp

theorem centre_eq (m : Nat) (e : Int) :
    ((Interval.of m e).centre : ℚ) * 2 ^ (Interval.of m e).exponent = magnitude m e := by
  rw [← quarters m e]
  show ((4 * m : Nat) : ℚ) * _ = _
  push_cast
  rfl

/-- The value of a number lies in its own interval. -/
theorem contains_magnitude (hm : m ≠ 0) : (Interval.of m e).Contains (magnitude m e) := by
  have htwo : (0 : ℚ) < 2 ^ (Interval.of m e).exponent := by positivity
  rw [← centre_eq]
  refine contains_of_lt ?_ ?_
  · gcongr
    exact (low_of_bounds m e hm).2
  · gcongr
    exact centre_lt_high m e

/-- A grid that is finer than half of the last place has a point in the interval. -/
theorem nearest?_of_fine (hm : m ≠ 0) (h : (10 : ℚ) ^ power < 2 ^ (e - 1)) :
    (Interval.of m e).nearest? power ≠ none := by
  obtain ⟨-, hlow⟩ := low_of_bounds m e hm
  refine (nearest?_ne_none_iff hlow (centre_lt_high m e)).mpr
    ⟨(Interval.of m e).below power + 1, Nat.succ_pos _, contains_of_lt ?_ ?_⟩
  · refine lt_trans ?_ (lt_below_succ _ power)
    gcongr
  · have hbelow := below_le (Interval.of m e) power
    have hhalf : (2 : ℚ) ^ (e - 1) = 2 * 2 ^ (Interval.of m e).exponent := by
      rw [show e - 1 = (Interval.of m e).exponent + 1 by rw [exponent_of]; omega,
        zpow_add_one₀ two_ne_zero, mul_comm]
    have hhigh : ((Interval.of m e).high : ℚ) = (Interval.of m e).centre + 2 := by
      show ((4 * m + 2 : Nat) : ℚ) = ((4 * m : Nat) : ℚ) + 2
      push_cast
      rfl
    rw [hhigh]
    push_cast
    linarith

/-- A whole number in the interval of a number whose last place is no more than one is its value. -/
theorem magnitude_of_contains (hm : m ≠ 0) (he : e ≤ 0) {n : Nat}
    (h : (Interval.of m e).Contains n) : magnitude m e = n := by
  obtain ⟨hlow, hhigh⟩ := h.bounds
  obtain ⟨j, rfl⟩ : ∃ j : Nat, e = -(j : Int) := ⟨(-e).toNat, by omega⟩
  have htwo : (0 : ℚ) < 2 ^ (Interval.of m (-j)).exponent := by positivity
  -- both are multiples of the last place
  have hn : (n : ℚ) = magnitude (n * 2 ^ j) (-j) := by
    rw [magnitude, zpow_neg, zpow_natCast]
    push_cast
    field_simp
  rw [hn, ← quarters] at hlow hhigh
  have hlow' := (mul_le_mul_iff_left₀ htwo).mp hlow
  have hhigh' := (mul_le_mul_iff_left₀ htwo).mp hhigh
  have heq : n * 2 ^ j = m := by
    have hbound := (low_of_bounds m (-j) hm).1
    have hlow'' : (Interval.of m (-j)).low ≤ 4 * (n * 2 ^ j) := by exact_mod_cast hlow'
    have hhigh'' : 4 * (n * 2 ^ j) ≤ 4 * m + 2 := by exact_mod_cast hhigh'
    omega
  rw [hn, heq]

/-- The interval of a number whose last place is more than one has no small whole number. -/
theorem exponent_nonpos_of_contains (hnormal : IsNormal m e) {n : Nat} (hn : n < 2 ^ 52)
    (h : (Interval.of m e).Contains n) : e ≤ 0 := by
  by_contra he
  have hfull : 2 ^ 52 ≤ m := hnormal.full.resolve_right (by rw [minExponent]; omega)
  have hlow : 2 ^ 54 ≤ (Interval.of m e).low + 2 := by
    have := (low_of_bounds m e (by omega)).1
    omega
  have htwo : (2 : ℚ) ^ (-1 : Int) ≤ 2 ^ (Interval.of m e).exponent :=
    zpow_le_zpow_right₀ one_le_two (by rw [exponent_of]; omega)
  have hlow' : (2 ^ 54 : ℚ) ≤ (Interval.of m e).low + 2 := by exact_mod_cast hlow
  have hn' : (n : ℚ) < 2 ^ 52 := by exact_mod_cast hn
  have hbound : ((Interval.of m e).low : ℚ) * 2 ^ (-1 : Int) ≤ n :=
    le_trans (by gcongr) h.bounds.1
  norm_num at hbound hlow'
  linarith

end Number

end Interval

/-! ### The decimal of a number -/

/-- A power of ten is less than a power of two if the exponents are far enough apart: `10 ^ 59` is
less than `2 ^ 196`, and `2 ^ 93` less than `10 ^ 28`. -/
theorem ten_zpow_lt_two_zpow {k e : Int} (hpos : 196 * k < 59 * e) (hneg : 93 * k < 28 * e) :
    (10 : ℚ) ^ k < 2 ^ e := by
  rcases le_or_gt 0 k with hk | hk
  · refine lt_of_pow_lt_pow_left₀ 59 (by positivity) ?_
    calc ((10 : ℚ) ^ k) ^ 59 = (10 ^ 59) ^ k := by
          rw [← zpow_natCast, ← zpow_natCast, ← zpow_mul, ← zpow_mul, mul_comm]
      _ ≤ (2 ^ 196) ^ k := zpow_le_zpow_left₀ hk (by positivity) (by norm_num)
      _ = 2 ^ (196 * k) := by rw [zpow_mul]; norm_num
      _ < 2 ^ (59 * e) := zpow_lt_zpow_right₀ one_lt_two hpos
      _ = (2 ^ e) ^ 59 := by rw [← zpow_natCast, ← zpow_mul, mul_comm]; rfl
  · refine lt_of_pow_lt_pow_left₀ 28 (by positivity) ?_
    obtain ⟨j, rfl⟩ : ∃ j : Nat, k = -(j : Int) := ⟨(-k).toNat, by omega⟩
    calc ((10 : ℚ) ^ (-(j : Int))) ^ 28 = ((10 ^ 28) ^ j)⁻¹ := by
          rw [zpow_neg, zpow_natCast, inv_pow, ← pow_mul, ← pow_mul, mul_comm]
      _ ≤ ((2 ^ 93) ^ j)⁻¹ := by
          gcongr
          norm_num
      _ = 2 ^ (93 * -(j : Int)) := by
          rw [← pow_mul, ← zpow_natCast, ← zpow_neg]
          push_cast
          rw [mul_neg]
      _ < 2 ^ (28 * e) := zpow_lt_zpow_right₀ one_lt_two hneg
      _ = (2 ^ e) ^ 28 := by rw [← zpow_natCast, ← zpow_mul, mul_comm]; rfl

section Decimal

variable {m : Nat} {e : Int}

/-- The exponent of the grid that the search starts on. -/
def startPower (m : Nat) (e : Int) : Int := ((m.log2 + 1 + e) * 30103) / 100000 + 2

/-- The search succeeds. -/
theorem exists_search (h : IsNormal m e) (hm : m ≠ 0) :
    ∃ d power, (Interval.of m e).search 24 (startPower m e) = some (d, power) ∧
      shortest m e = (d, power) := by
  have hlog : m.log2 < 53 := (Nat.log2_lt hm).mpr h.lt
  have hmin := h.min_le
  have hmax := h.le_max
  rw [minExponent] at hmin
  rw [maxExponent] at hmax
  have hfine : (10 : ℚ) ^ (startPower m e - 23) < 2 ^ (e - 1) := by
    apply ten_zpow_lt_two_zpow <;> rw [startPower] <;> omega
  have hfound : (Interval.of m e).search 24 (startPower m e) ≠ none :=
    Interval.search_ne_none (by omega) (by omega) (Interval.nearest?_of_fine hm hfine)
  obtain ⟨⟨d, power⟩, hsearch⟩ := Option.ne_none_iff_exists'.mp hfound
  refine ⟨d, power, hsearch, ?_⟩
  show ((Interval.of m e).search 24 (startPower m e)).getD (m, 0) = (d, power)
  rw [hsearch]
  rfl

/-- The decimal of a number is positive and lies in its rounding interval. -/
theorem shortest_mem (h : IsNormal m e) (hm : m ≠ 0) :
    0 < (shortest m e).1 ∧
      (Interval.of m e).Contains ((shortest m e).1 * 10 ^ (shortest m e).2) := by
  obtain ⟨d, power, hsearch, heq⟩ := exists_search h hm
  rw [heq]
  exact Interval.of_nearest? (Interval.of_search hsearch).1

/-- If the value of a number is a whole number, then its decimal is one. -/
theorem power_nonneg_of_whole (h : IsNormal m e) (hm : m ≠ 0) {n : Nat} (hn : n < 2 ^ 52)
    (hwhole : magnitude m e = n) : 0 ≤ (shortest m e).2 := by
  obtain ⟨d, power, hsearch, heq⟩ := exists_search h hm
  rw [heq]
  by_contra hneg
  have hpos : 0 < n := by
    rw [Nat.pos_iff_ne_zero]
    rintro rfl
    rw [magnitude, Nat.cast_zero, mul_eq_zero] at hwhole
    exact hwhole.elim (fun hzero => hm (Nat.cast_eq_zero.mp hzero))
      (zpow_ne_zero e two_ne_zero)
  have hlow : (1 : ℚ) < 2 ^ ((m.log2 : Int) + 1 + e) := by
    calc (1 : ℚ) ≤ n := by exact_mod_cast hpos
      _ = m * 2 ^ e := hwhole.symm
      _ < 2 ^ ((m.log2 : Int) + 1) * 2 ^ e := by
          gcongr
          rw [show (m.log2 : Int) + 1 = ((m.log2 + 1 : Nat) : Int) by omega, zpow_natCast]
          exact_mod_cast Nat.lt_log2_self
      _ = 2 ^ ((m.log2 : Int) + 1 + e) := (zpow_add₀ two_ne_zero _ _).symm
  have hstart : 0 ≤ startPower m e := by
    have := (one_lt_zpow_iff_right₀ one_lt_two).mp hlow
    rw [startPower]
    omega
  -- the grid of whole numbers has a point in the interval, and the search comes to it first
  have hnone := (Interval.of_search hsearch).2 0 (by omega) hstart
  obtain ⟨-, hbelow⟩ := Interval.low_of_bounds m e hm
  refine (Interval.nearest?_ne_none_iff hbelow (Interval.centre_lt_high m e)).mpr
    ⟨n, hpos, ?_⟩ hnone
  rw [zpow_zero, mul_one, ← hwhole]
  exact Interval.contains_magnitude hm

/-- A number is written as a whole number that is not too large exactly when that is its value. -/
theorem shortest_eq_whole_iff (h : IsNormal m e) (hm : m ≠ 0) {n : Nat} (hn : n < 2 ^ 52) :
    (∃ k : Nat, (shortest m e).2 = k ∧ (shortest m e).1 * 10 ^ k = n) ↔ magnitude m e = n := by
  obtain ⟨-, hmem⟩ := shortest_mem h hm
  constructor
  · rintro ⟨k, hk, rfl⟩
    rw [hk, zpow_natCast, ← Nat.cast_ofNat, ← Nat.cast_pow, ← Nat.cast_mul] at hmem
    exact Interval.magnitude_of_contains hm (Interval.exponent_nonpos_of_contains h hn hmem) hmem
  · intro hwhole
    have he : e ≤ 0 := Interval.exponent_nonpos_of_contains h hn
      (hwhole ▸ Interval.contains_magnitude hm)
    obtain ⟨k, hk⟩ := Int.eq_ofNat_of_zero_le (power_nonneg_of_whole h hm hn hwhole)
    refine ⟨k, hk, ?_⟩
    rw [hk, zpow_natCast, ← Nat.cast_ofNat, ← Nat.cast_pow, ← Nat.cast_mul] at hmem
    exact_mod_cast (Interval.magnitude_of_contains hm he hmem).symm.trans hwhole

end Decimal

end LogSetup.Binary64
