import LogSetup.Text.Numeral
import LogSetup.Text.Split
import LogSetup.Text.Utf8

/-!
# Developer texts

A developer text shows how a value is built: records with their fields, lists, and texts in quotes,
all on one line. Characters that cannot be seen are written as escapes.

## Main definitions

- `Shown` : what is shown
- `Shown.text` : how it is written
- `Shown.ofText`, `Shown.ofBytes` : texts and paths
-/

namespace LogSetup

/-- What is shown. -/
inductive Shown where
  | word (text : String)
  /-- A record; of an open one some fields are not shown. -/
  | record (name : String) (fields : List (String × Shown)) (isOpen : Bool)
  | call (name : String) (arguments : List Shown)
  | list (items : List Shown)
  | table (rows : List (Shown × Shown))

namespace Shown

/-- Characters without a shape of their own: blanks other than the space, control characters,
marks that join the character before them, and the ranges for private use. -/
def isUnseen (c : Char) : Bool :=
  let n := c.toNat
  let within := fun (low high : Nat) => low ≤ n && n ≤ high
  n < 0x20 || within 0x7F 0xA0 || n == 0xAD || within 0x0300 0x036F || within 0x0483 0x0489 ||
    within 0x0591 0x05BD || within 0x0610 0x061A || within 0x064B 0x065F || n == 0x061C ||
    n == 0x1680 || n == 0x180E || within 0x1AB0 0x1AFF || within 0x1DC0 0x1DFF ||
    within 0x2000 0x200F || within 0x2028 0x202F || within 0x205F 0x206F || within 0x20D0 0x20F0 ||
    n == 0x3000 || within 0xE000 0xF8FF || within 0xFE00 0xFE0F || within 0xFE20 0xFE2F ||
    n == 0xFEFF || within 0xFFF0 0xFFFB || within 0xE0000 0x10FFFF

/-- A character in quotes. -/
def quotedChar (c : Char) : List Char :=
  if c = '\x00' then ['\\', '0']
  else if c = '\t' then ['\\', 't']
  else if c = '\n' then ['\\', 'n']
  else if c = '\r' then ['\\', 'r']
  else if c = '\\' ∨ c = '\x22' then ['\\', c]
  else if isUnseen c then ['\\', 'u', '\x7b'] ++ Text.hexDigits c.toNat ++ ['\x7d']
  else [c]

/-- A character of a path in quotes, where an apostrophe is escaped too. -/
def quotedPathChar (c : Char) : List Char := if c = '\x27' then ['\\', c] else quotedChar c

/-- A byte that is no part of a character. -/
def strayByte (b : UInt8) : List Char :=
  ['\\', 'x', Text.hexDigit (b.toNat / 16), Text.hexDigit (b.toNat % 16)]

/-- The bytes of a path in quotes. -/
def quotedBytes : Bytes → List Char
  | [] => []
  | lead :: rest =>
    let step := Utf8.readChar lead rest
    (match step.1 with
      | some c => quotedPathChar c
      | none => (lead :: rest.take step.2).flatMap strayByte) ++ quotedBytes (rest.drop step.2)
termination_by bs => bs.length
decreasing_by simp only [List.length_drop, List.length_cons]; omega

/-- Put quotes around characters. -/
def inQuotes (cs : List Char) : Shown := .word (String.ofList ('\x22' :: (cs ++ ['\x22'])))

/-- A text in quotes. -/
def ofText (s : String) : Shown := inQuotes (s.toList.flatMap quotedChar)

/-- A path in quotes. -/
def ofBytes (bs : Bytes) : Shown := inQuotes (quotedBytes bs)

/-- A truth value. -/
def ofBool (b : Bool) : Shown := .word (if b then "true" else "false")

/-- A number. -/
def ofInt (i : Int) : Shown := .word (Text.decimalInt i)

/-- A value that may be missing. -/
def ofOption (v : Option Shown) : Shown :=
  match v with
  | some s => .call "Some" [s]
  | none => .word "None"

mutual

/-- How a value is written. -/
def text : Shown → String
  | .word s => s
  | .record name fields isOpen =>
    let parts := fieldTexts fields ++ if isOpen then [".."] else []
    if parts.isEmpty then name else name ++ " \x7b " ++ Text.joinTexts ", " parts ++ " \x7d"
  | .call name arguments => name ++ "(" ++ Text.joinTexts ", " (texts arguments) ++ ")"
  | .list items => "[" ++ Text.joinTexts ", " (texts items) ++ "]"
  | .table rows => "\x7b" ++ Text.joinTexts ", " (rowTexts rows) ++ "\x7d"

/-- How values are written. -/
def texts : List Shown → List String
  | [] => []
  | s :: rest => text s :: texts rest

/-- How the fields of a record are written. -/
def fieldTexts : List (String × Shown) → List String
  | [] => []
  | (name, s) :: rest => (name ++ ": " ++ text s) :: fieldTexts rest

/-- How the rows of a table are written. -/
def rowTexts : List (Shown × Shown) → List String
  | [] => []
  | (k, v) :: rest => (text k ++ ": " ++ text v) :: rowTexts rest

end

end Shown

end LogSetup
