import LogSetup.Binary64.Layout

/-!
# JSON values

## Main definitions

- `Json.Number` : whole numbers of 64 bits, and binary64 numbers
- `Json.Value` : values
- `Json.Number.text` : how a number is written
-/

namespace LogSetup.Json

/-- A number as the reader keeps it: whole numbers that fit 64 bits stay whole. -/
inductive Number where
  | whole (value : Int)
  | float (value : Binary64)
  deriving DecidableEq, Repr

/-- A value. The members of an object keep the order in which they were written. -/
inductive Value where
  | null
  | bool (value : Bool)
  | number (value : Number)
  | string (value : String)
  | array (items : List Value)
  | object (members : List (String × Value))
  deriving Repr

/-- Numbers that are not whole are written with a point, or with a signed exponent outside the
positions from -4 to 16. -/
def layout : Binary64.Layout :=
  { positional := some (-4, 16), wholeMark := true, exponentSign := "+", nan := "null"
    infinity := "null" }

/-- How a number is written. -/
def Number.text : Number → String
  | .whole i => Text.decimalInt i
  | .float x => layout.text x

end LogSetup.Json
