/-!
# Numerals

Whole numbers in text. Writing is decimal with a leading minus sign for negative numbers. Reading
takes a radix, wants at least one digit, and never wraps: the caller states the range.

## Main definitions

- `Text.decimal`, `Text.decimalInt` : the decimal form of a number
- `Text.readDigits?` : the value of a digit string in a radix
- `Text.readSigned?` : an optional sign and digits, within a range
-/

namespace LogSetup.Text

/-- The digits of `n` in base ten, most significant first. -/
def decimalDigits (n : Nat) : List Char :=
  if n < 10 then [Char.ofNat (48 + n)]
  else decimalDigits (n / 10) ++ [Char.ofNat (48 + n % 10)]
termination_by n
decreasing_by omega

/-- The decimal form of a natural number. -/
def decimal (n : Nat) : String := String.ofList (decimalDigits n)

/-- The decimal form of an integer. -/
def decimalInt (i : Int) : String :=
  if i < 0 then String.ofList ('-' :: decimalDigits i.natAbs) else decimal i.natAbs

/-- The value of an ASCII letter or digit as a digit in some radix up to thirty-six. -/
def digitValue? (c : Char) : Option Nat :=
  let n := c.toNat
  if 48 ≤ n ∧ n ≤ 57 then some (n - 48)
  else if 97 ≤ n ∧ n ≤ 122 then some (n - 87)
  else if 65 ≤ n ∧ n ≤ 90 then some (n - 55)
  else none

/-- Read further digits of a number of which `value` has been read. -/
def readMore? (radix : Nat) : Nat → List Char → Option Nat
  | value, [] => some value
  | value, c :: rest =>
    match digitValue? c with
    | some d => if d < radix then readMore? radix (value * radix + d) rest else none
    | none => none

/-- The value of a non-empty string of digits of the radix. -/
def readDigits? (radix : Nat) (cs : List Char) : Option Nat :=
  if cs.isEmpty then none else readMore? radix 0 cs

/-- An optional sign and at least one digit. -/
def readSigned? (radix : Nat) : List Char → Option Int
  | '-' :: rest => (readDigits? radix rest).map fun n => -(n : Int)
  | '+' :: rest => (readDigits? radix rest).map fun n => (n : Int)
  | cs => (readDigits? radix cs).map fun n => (n : Int)

/-- A signed number that lies between two bounds. -/
def readBetween? (low high : Int) (radix : Nat) (cs : List Char) : Option Int :=
  match readSigned? radix cs with
  | some i => if low ≤ i ∧ i ≤ high then some i else none
  | none => none

/-- The 32-bit signed range. -/
def readInt32? (cs : List Char) : Option Int := readBetween? (-0x80000000) 0x7FFFFFFF 10 cs

/-- A hexadecimal digit in capitals. -/
def hexDigit (n : Nat) : Char := Char.ofNat (if n < 10 then 48 + n else 55 + n)

/-- The hexadecimal form of a number in small letters, without leading zeros. -/
def hexDigits (n : Nat) : List Char :=
  let last := Char.ofNat (if n % 16 < 10 then 48 + n % 16 else 87 + n % 16)
  if n < 16 then [last] else hexDigits (n / 16) ++ [last]
termination_by n
decreasing_by omega

end LogSetup.Text
