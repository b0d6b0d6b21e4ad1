/-!
# Binary64 numbers

A finite number is a sign and a value `significand · 2 ^ exponent`; nothing is left to the
machine's own arithmetic, so every result is a value that a proof can compute with. Rounding goes
to the nearest number and from a tie to the even significand.

## Main definitions

- `Binary64` : the numbers
- `Binary64.ofRatio` : the number nearest to a fraction
- `Binary64.ofDecimal` : the number nearest to `digits · 10 ^ power`
- `Binary64.mul`, `Binary64.div` : rounded product and quotient
-/

namespace LogSetup

/-- A binary64 number. Finite ones keep the least exponent that lets the significand stay below
`2 ^ 53`, but never one below `-1074`. -/
inductive Binary64 where
  | nan
  | infinite (negative : Bool)
  | finite (negative : Bool) (significand : Nat) (exponent : Int)
  deriving DecidableEq, Repr, Inhabited

namespace Binary64

/-- The least exponent of a finite number. -/
def minExponent : Int := -1074

/-- The greatest exponent of a finite number. -/
def maxExponent : Int := 971

/-- The least significand that uses every binary digit: `2 ^ 52`. -/
def leadingBit : Nat := 0x10000000000000

/-- Zero with a sign. -/
def zero (negative : Bool) : Binary64 := .finite negative 0 minExponent

/-- The whole number nearest to a fraction; a tie goes to the even one. -/
def roundHalfEven (num den : Nat) : Nat :=
  let floor := num / den
  let rest := num % den
  if 2 * rest < den then floor
  else if den < 2 * rest then floor + 1
  else floor + floor % 2

/-- The fraction `num / den` divided by `2 ^ e`, as a fraction. -/
def overPower (num den : Nat) (e : Int) : Nat × Nat :=
  if 0 ≤ e then (num, den * Nat.pow 2 e.toNat) else (num * Nat.pow 2 (-e).toNat, den)

/-- The number nearest to `num / den`. -/
def ofRatio (negative : Bool) (num den : Nat) : Binary64 :=
  if num = 0 then zero negative
  else
    let low := max ((num.log2 : Int) - den.log2 - 53) minExponent
    let at0 := overPower num den low
    let e := if at0.2 * (2 * leadingBit) ≤ at0.1 then low + 1 else low
    let frac := overPower num den e
    let m := roundHalfEven frac.1 frac.2
    let m' := if m = 2 * leadingBit then leadingBit else m
    let e' := if m = 2 * leadingBit then e + 1 else e
    if maxExponent < e' then .infinite negative else .finite negative m' e'

/-- The number nearest to a natural number. -/
def ofNat (n : Nat) : Binary64 := ofRatio false n 1

/-- The number nearest to `digits · 10 ^ power`. Outside the range of finite numbers the power is
not expanded. -/
def ofDecimal (negative : Bool) (digits : Nat) (power : Int) : Binary64 :=
  let size : Int := (Nat.toDigits 10 digits).length
  if digits = 0 then zero negative
  else if 310 < size + power then .infinite negative
  else if size + power < -330 then zero negative
  else if 0 ≤ power then ofRatio negative (digits * Nat.pow 10 power.toNat) 1
  else ofRatio negative digits (Nat.pow 10 (-power).toNat)

/-- The magnitude of a finite number as a fraction. -/
def ratio (significand : Nat) (exponent : Int) : Nat × Nat :=
  if 0 ≤ exponent then (significand * Nat.pow 2 exponent.toNat, 1)
  else (significand, Nat.pow 2 (-exponent).toNat)

/-- The number with the other sign. -/
def neg : Binary64 → Binary64
  | .nan => .nan
  | .infinite s => .infinite (!s)
  | .finite s m e => .finite (!s) m e

/-- The rounded product of finite numbers; `nan` when either is not finite. -/
def mul : Binary64 → Binary64 → Binary64
  | .finite s m e, .finite t n f =>
    let a := ratio m e
    let b := ratio n f
    ofRatio (s != t) (a.1 * b.1) (a.2 * b.2)
  | _, _ => .nan

/-- The rounded quotient of a finite number by a finite number that is not zero; `nan` otherwise. -/
def div : Binary64 → Binary64 → Binary64
  | .finite s m e, .finite t n f =>
    if n = 0 then .nan
    else
      let a := ratio m e
      let b := ratio n f
      ofRatio (s != t) (a.1 * b.2) (a.2 * b.1)
  | _, _ => .nan

/-- Neither infinite nor `nan`. -/
def isFinite : Binary64 → Bool
  | .finite .. => true
  | _ => false

/-- Zero of either sign. -/
def isZero : Binary64 → Bool
  | .finite _ m _ => m == 0
  | _ => false

/-- The same number, where zeros of both signs are one and so are all `nan`s. -/
def same (x y : Binary64) : Bool := (x.isZero && y.isZero) || x == y

end Binary64

end LogSetup
