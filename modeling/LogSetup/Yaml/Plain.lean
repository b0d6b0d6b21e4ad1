import LogSetup.Binary64.Reading
import LogSetup.Yaml.Node

/-!
# What scalars mean

A plain scalar without a tag is null, a truth value, an integer, a binary64 number or a text, tried
in this order. Integers may be decimal, or hexadecimal, octal or binary after `0x`, `0o` and `0b`;
digits after a leading zero are a text. The core tags ask for one of these meanings, and a scalar
written with marks is a text.

## Main definitions

- `Yaml.Plain` : the meanings
- `Yaml.Plain.of` : the meaning of a plain scalar
- `Yaml.Plain.ofScalar?` : the meaning of a scalar with a tag and a style
-/

namespace LogSetup.Yaml

/-- The meaning of a scalar. -/
inductive Plain where
  | null
  | bool (value : Bool)
  /-- An integer of 64 bits, signed or not. -/
  | integer (value : Int)
  /-- An integer that takes more than 64 bits and at most 128. -/
  | wide (value : Int)
  | float (value : Binary64)
  | text (value : String)
  deriving DecidableEq, Repr

/-- The words for null. -/
def isNullWord (cs : List Char) : Bool :=
  ["null", "Null", "NULL", "~"].any fun w => cs == w.toList

/-- The words for truth values. -/
def readBool? (cs : List Char) : Option Bool :=
  if ["true", "True", "TRUE"].any fun w => cs == w.toList then some true
  else if ["false", "False", "FALSE"].any fun w => cs == w.toList then some false
  else none

/-- Without one leading sign. -/
def dropSign : List Char → List Char
  | '+' :: rest | '-' :: rest => rest
  | cs => cs

/-- A zero and further digits, after an optional sign: no number. -/
def isPaddedDigits (cs : List Char) : Bool :=
  match dropSign cs with
  | '0' :: d :: rest => (d :: rest).all Char.isDigit
  | _ => false

/-- The digits after a radix mark. -/
def readRadix? : List Char → Option Nat
  | '0' :: 'x' :: rest => Text.readDigits? 16 rest
  | '0' :: 'o' :: rest => Text.readDigits? 8 rest
  | '0' :: 'b' :: rest => Text.readDigits? 2 rest
  | _ => none

/-- The value of a magnitude: digits after a radix mark, or decimal digits that are not padded. -/
def readMagnitude? (cs : List Char) : Option Nat :=
  match readRadix? cs with
  | some n => some n
  | none => if isPaddedDigits cs then none else Text.readDigits? 10 cs

/-- The integer that a scalar denotes, of any size. -/
def readInteger? : List Char → Option Int
  | '+' :: rest => (readMagnitude? rest).map fun n => (n : Int)
  | '-' :: rest => (readMagnitude? rest).map fun n => -(n : Int)
  | cs => (readMagnitude? cs).map fun n => (n : Int)

/-- The finite or named number that a scalar denotes. -/
def readFloat? (cs : List Char) : Option Binary64 :=
  let unsigned :=
    match cs with
    | '+' :: rest => rest
    | _ => cs
  let named := fun (names : List String) (s : List Char) => names.any fun w => s == w.toList
  if unsigned.length < cs.length ∧ (unsigned.head?.any fun c => c == '+' || c == '-') then none
  else if named [".inf", ".Inf", ".INF"] unsigned then some (.infinite false)
  else if named ["-.inf", "-.Inf", "-.INF"] cs then some (.infinite true)
  else if named [".nan", ".NaN", ".NAN"] cs then some .nan
  else
    match Binary64.read? unsigned with
    | some x => if x.isFinite then some x else none
    | none => none

namespace Plain

/-- An integer by its size; none for more than 128 bits. -/
def ofInteger? (i : Int) : Option Plain :=
  if -0x8000000000000000 ≤ i ∧ i < 0x10000000000000000 then some (.integer i)
  else if -0x80000000000000000000000000000000 ≤ i ∧ i < 0x100000000000000000000000000000000 then
    some (.wide i)
  else none

/-- The meaning of a plain scalar. -/
def of (cs : List Char) : Plain :=
  if cs = [] ∨ isNullWord cs then .null
  else
    match readBool? cs with
    | some b => .bool b
    | none =>
      match (readInteger? cs).bind ofInteger? with
      | some p => p
      | none =>
        match (if isPaddedDigits cs then none else readFloat? cs) with
        | some x => .float x
        | none => .text (String.ofList cs)

/-- The full form of a core tag. -/
def coreTag (name : String) : List Char := "tag:yaml.org,2002:".toList ++ name.toList

/-- The meaning of a scalar that has no tag of the application. A core tag that the text does not
fit is refused. -/
def ofScalar? (tag : Option (List Char)) (style : Style) (cs : List Char) : Option Plain :=
  let written := Plain.text (String.ofList cs)
  match tag with
  | none => if style = .plain then some (of cs) else some written
  | some t =>
    if t = coreTag "bool" then (readBool? cs).map .bool
    else if t = coreTag "int" then (readInteger? cs).bind ofInteger?
    else if t = coreTag "float" then (readFloat? cs).map .float
    else if t = coreTag "null" then (if isNullWord cs then some .null else none)
    else some written

end Plain

/-- The name of a tag of the application, which starts with an exclamation mark. -/
def localTag? : Option (List Char) → Option (List Char)
  | some ('!' :: rest) => some (if rest = [] then ['!'] else rest)
  | _ => none

end LogSetup.Yaml
