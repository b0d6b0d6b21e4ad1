import LogSetup.Binary64.Reading
import LogSetup.Json.Basic

/-!
# Reading a JSON number

Digits are gathered in a 64-bit significand for as long as it does not overflow; later digits
before the point count as powers of ten and later ones after it are dropped. A number with a point,
an exponent or too many digits becomes the significand, rounded, scaled by rounded powers of ten.

## Main definitions

- `Json.readNumber?` : the number at the front of a text
-/

namespace LogSetup.Json

/-- One more than the largest 64-bit significand. -/
def significandBound : Nat := 0x10000000000000000

/-- Gather leading digits while the significand fits: the significand, how many digits it took,
and what follows them. -/
def gather (value : Nat) : List Char → Nat × Nat × List Char
  | [] => (value, 0, [])
  | c :: rest =>
    if c.isDigit then
      let next := value * 10 + (c.toNat - 48)
      if next < significandBound then
        let (v, n, left) := gather next rest
        (v, n + 1, left)
      else (value, 0, c :: rest)
    else (value, 0, c :: rest)

/-- A power of ten up to `10 ^ 308`, rounded. -/
def powerOfTen (n : Nat) : Binary64 := Binary64.ofDecimal false 1 n

/-- Scale by a power of ten in steps of at most `10 ^ 308`. Nothing when the result is infinite. -/
def scale? : Nat → Binary64 → Int → Option Binary64
  | 0, x, _ => some x
  | steps + 1, x, power =>
    if power.natAbs ≤ 308 then
      let y :=
        if 0 ≤ power then x.mul (powerOfTen power.natAbs) else x.div (powerOfTen power.natAbs)
      if y.isFinite then some y else none
    else if x.isZero then some x
    else if 0 ≤ power then none
    else scale? steps (x.div (powerOfTen 308)) (power + 308)

/-- A significand and a power of ten as a number; a few steps bring every number to zero. -/
def floatOf? (negative : Bool) (significand : Nat) (power : Int) : Option Number :=
  (scale? 8 (Binary64.ofNat significand) power).map fun x =>
    .float (if negative then x.neg else x)

/-- The exponent after its mark. An exponent beyond 32 bits makes zero of a number, or nothing. -/
def readScaled? (negative : Bool) (significand : Nat) (power : Int) (cs : List Char) :
    Option (Number × List Char) :=
  let (down, digits) :=
    match cs with
    | '+' :: rest => (false, rest)
    | '-' :: rest => (true, rest)
    | _ => (false, cs)
  let (written, left) := Binary64.digitsAndRest digits
  if written.isEmpty then none
  else
    let size := Binary64.digitsValue written
    if 0x80000000 ≤ size then
      if significand ≠ 0 ∧ !down then none else some (.float (Binary64.zero negative), left)
    else
      (floatOf? negative significand (if down then power - size else power + size)).map (·, left)

/-- What follows the gathered digits: an exponent or the end of the number. -/
def finish? (negative : Bool) (significand : Nat) (power : Int) :
    List Char → Option (Number × List Char)
  | 'e' :: rest | 'E' :: rest => readScaled? negative significand power rest
  | rest => (floatOf? negative significand power).map (·, rest)

/-- A number whose whole part has been gathered: `dropped` of its digits did not fit. -/
def readTail? (negative : Bool) (significand dropped : Nat) (cs : List Char) :
    Option (Number × List Char) :=
  match cs with
  | '.' :: rest =>
    let (value, used, left) := gather significand rest
    let (overflow, left) := Binary64.digitsAndRest left
    if used = 0 ∧ overflow.isEmpty then none
    else finish? negative value ((dropped : Int) - used) left
  | 'e' :: rest | 'E' :: rest => readScaled? negative significand dropped rest
  | _ =>
    if 0 < dropped then (floatOf? negative significand dropped).map (·, cs)
    else if !negative then some (.whole significand, cs)
    else if 0 < significand ∧ significand ≤ 0x8000000000000000 then
      some (.whole (-(significand : Int)), cs)
    else some (.float (Binary64.ofNat significand).neg, cs)

/-- A number without its sign: a zero alone, or digits that do not start with one. -/
def readUnsigned? (negative : Bool) : List Char → Option (Number × List Char)
  | '0' :: c :: rest => if c.isDigit then none else readTail? negative 0 0 (c :: rest)
  | cs =>
    let (significand, used, left) := gather 0 cs
    let (overflow, left) := Binary64.digitsAndRest left
    if used = 0 then none else readTail? negative significand overflow.length left

/-- The number at the front of a text and what follows it. -/
def readNumber? : List Char → Option (Number × List Char)
  | '-' :: rest => readUnsigned? true rest
  | cs => readUnsigned? false cs

end LogSetup.Json
