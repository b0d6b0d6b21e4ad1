import LogSetup.Binary64.Basic
import LogSetup.Text.Numeral

/-!
# Reading a decimal

A decimal has an optional sign, digits with an optional point among or beside them, and an optional
exponent. At least one digit stands before the exponent, and at least one in it.

## Main definitions

- `Binary64.read?` : the number nearest to a decimal
-/

namespace LogSetup.Binary64

/-- The leading ASCII digits and what follows them. -/
def digitsAndRest (cs : List Char) : List Char × List Char :=
  (cs.takeWhile Char.isDigit, cs.dropWhile Char.isDigit)

/-- The value of a string of decimal digits, zero for the empty string. -/
def digitsValue (cs : List Char) : Nat := (Text.readMore? 10 0 cs).getD 0

/-- The exponent part of a decimal: nothing, or a mark and a signed number. -/
def readExponent? : List Char → Option Int
  | [] => some 0
  | c :: rest => if c = 'e' ∨ c = 'E' then Text.readSigned? 10 rest else none

/-- A decimal without its sign. -/
def readUnsigned? (negative : Bool) (cs : List Char) : Option Binary64 :=
  let (whole, rest) := digitsAndRest cs
  let (fraction, rest) :=
    match rest with
    | '.' :: more => digitsAndRest more
    | _ => ([], rest)
  if whole.isEmpty && fraction.isEmpty then none
  else
    (readExponent? rest).map fun e =>
      ofDecimal negative (digitsValue (whole ++ fraction)) (e - fraction.length)

/-- The number nearest to a decimal. -/
def read? : List Char → Option Binary64
  | '-' :: rest => readUnsigned? true rest
  | '+' :: rest => readUnsigned? false rest
  | cs => readUnsigned? false cs

end LogSetup.Binary64
