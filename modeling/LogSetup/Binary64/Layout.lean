import LogSetup.Binary64.Shortest
import LogSetup.Text.Numeral

/-!
# Decimal layouts of a number

The digits are the shortest that read back; a layout says where the point goes. All decisions of
one format are one `Layout`.

## Main definitions

- `Binary64.Layout` : the decisions of a format
- `Binary64.Layout.text` : the text of a number in a layout
-/

namespace LogSetup.Binary64

/-- How a number is written. -/
structure Layout where
  /-- The positions of the point, counted from the first digit, that are written without an
  exponent; every position when absent. -/
  positional : Option (Int × Int)
  /-- Whether a whole number ends in `.0`. -/
  wholeMark : Bool
  /-- What stands before the digits of an exponent that is not negative. -/
  exponentSign : String
  nan : String
  infinity : String
  deriving DecidableEq, Repr

/-- Digits written without an exponent, with the point after the first `point` digits. -/
def positionalText (wholeMark : Bool) (digits : List Char) (point : Int) : List Char :=
  let count : Int := digits.length
  if count ≤ point then
    digits ++ List.replicate (point - count).toNat '0' ++ (if wholeMark then ['.', '0'] else [])
  else if 0 < point then
    digits.take point.toNat ++ '.' :: digits.drop point.toNat
  else
    '0' :: '.' :: (List.replicate (-point).toNat '0' ++ digits)

/-- Digits written with one digit before the point and an exponent. -/
def scientificText (exponentSign : String) (digits : List Char) (point : Int) : List Char :=
  let mantissa :=
    match digits with
    | [] => []
    | [d] => [d]
    | d :: rest => d :: '.' :: rest
  let exponent := point - 1
  let sign := if exponent < 0 then [] else exponentSign.toList
  mantissa ++ 'e' :: (sign ++ (Text.decimalInt exponent).toList)

/-- The magnitude of a finite number in a layout. -/
def Layout.magnitude (l : Layout) (m : Nat) (e : Int) : List Char :=
  if m = 0 then (if l.wholeMark then ['0', '.', '0'] else ['0'])
  else
    let (value, power) := shortest m e
    let digits := Text.decimalDigits value
    let point : Int := digits.length + power
    match l.positional with
    | none => positionalText l.wholeMark digits point
    | some (low, high) =>
      if low ≤ point ∧ point ≤ high then positionalText l.wholeMark digits point
      else scientificText l.exponentSign digits point

/-- The text of a number in a layout. -/
def Layout.text (l : Layout) : Binary64 → String
  | .nan => l.nan
  | .infinite negative => if negative then "-" ++ l.infinity else l.infinity
  | .finite negative m e =>
    String.ofList (if negative then '-' :: l.magnitude m e else l.magnitude m e)

end LogSetup.Binary64
