import LogSetup.Binary64.Basic

/-!
# The shortest decimal that reads back

Among the decimals that round to a given number, the shortest are those on the coarsest decimal
grid `10 ^ power` that has a point in the number's rounding interval. The interval lies between the
midpoints to the two neighbours and includes them when the significand is even. On a grid only the
two points next to the number itself can be nearest, so those two are tested.

## Main definitions

- `Binary64.Interval` : the rounding interval of a positive number, in quarters of its last place
- `Binary64.shortest` : digits and power of ten
-/

namespace LogSetup.Binary64

/-- The number `centre · 2 ^ exponent` and the midpoints to its neighbours. -/
structure Interval where
  low : Nat
  centre : Nat
  high : Nat
  exponent : Int
  /-- Whether the two ends belong to the interval. -/
  closed : Bool
  deriving DecidableEq, Repr

/-- The rounding interval of `m · 2 ^ e`. Below a power of two the neighbour is half as far. -/
def Interval.of (m : Nat) (e : Int) : Interval :=
  { low := if m = leadingBit ∧ minExponent < e then 4 * m - 1 else 4 * m - 2
    centre := 4 * m
    high := 4 * m + 2
    exponent := e - 2
    closed := m % 2 == 0 }

/-- The factors that compare `d · 10 ^ power` with `x · 2 ^ exponent`: the first is at most the
second exactly when `d · a ≤ x · b`. -/
def Interval.scales (i : Interval) (power : Int) : Nat × Nat :=
  (Nat.pow 10 power.toNat * Nat.pow 2 (-i.exponent).toNat,
    Nat.pow 2 i.exponent.toNat * Nat.pow 10 (-power).toNat)

/-- Whether `d · 10 ^ power` lies in the interval. -/
def Interval.holds (i : Interval) (power : Int) (d : Nat) : Bool :=
  let (a, b) := i.scales power
  if i.closed then i.low * b ≤ d * a && d * a ≤ i.high * b
  else i.low * b < d * a && d * a < i.high * b

/-- The point of the grid `10 ^ power` inside the interval that is nearest to its centre; of two
that are equally near, the even one. -/
def Interval.nearest? (i : Interval) (power : Int) : Option Nat :=
  let (a, b) := i.scales power
  let below := i.centre * b / a
  let above := below + 1
  match 0 < below && i.holds power below, i.holds power above with
  | true, true =>
    let twice := 2 * (i.centre * b)
    let middle := (below + above) * a
    if twice < middle then some below
    else if middle < twice then some above
    else if below % 2 = 0 then some below else some above
  | true, false => some below
  | false, true => some above
  | false, false => none

/-- Try ever finer grids. -/
def Interval.search (i : Interval) : Nat → Int → Option (Nat × Int)
  | 0, _ => none
  | steps + 1, power =>
    match i.nearest? power with
    | some d => some (d, power)
    | none => i.search steps (power - 1)

/-- Digits and power of ten of the shortest decimal for `m · 2 ^ e`, where `m` is not zero. The
search starts on a grid coarser than the number; seventeen digits always suffice. -/
def shortest (m : Nat) (e : Int) : Nat × Int :=
  let start := ((m.log2 + 1 + e) * 30103) / 100000 + 2
  ((Interval.of m e).search 24 start).getD (m, 0)

end LogSetup.Binary64
