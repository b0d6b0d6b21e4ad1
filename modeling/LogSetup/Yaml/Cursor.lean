import LogSetup.Text.Numeral
import LogSetup.Text.Utf8

/-!
# YAML characters and positions

A stream is UTF-8 or, after a byte order mark, UTF-16. It may hold printable characters only. A
`Cursor` is what remains of it together with the line and column reached, on which indentation and
the extent of keys depend.

## Main definitions

- `Yaml.decode?` : the characters of a stream
- `Yaml.isBreak`, `Yaml.isGap` : line breaks, and spaces and tabs
- `Yaml.Cursor` : a position in a stream
-/

namespace LogSetup.Yaml

/-- Characters that a stream may hold. -/
def isAllowed (c : Char) : Bool :=
  let n := c.toNat
  n == 0x09 || n == 0x0A || n == 0x0D || (0x20 ≤ n && n ≤ 0x7E) || n == 0x85 ||
    (0xA0 ≤ n && n ≤ 0xD7FF) || (0xE000 ≤ n && n ≤ 0xFFFD) || 0x10000 ≤ n

/-- The 16-bit units of a byte list. -/
def units? (bigEndian : Bool) : Bytes → Option (List Nat)
  | [] => some []
  | [_] => none
  | a :: b :: rest =>
    let unit := if bigEndian then a.toNat * 256 + b.toNat else b.toNat * 256 + a.toNat
    (units? bigEndian rest).map (unit :: ·)

/-- The characters of 16-bit units; a high surrogate wants a low one after it. -/
def charsOfUnits? : List Nat → Option (List Char)
  | [] => some []
  | unit :: rest =>
    if 0xDC00 ≤ unit ∧ unit ≤ 0xDFFF then none
    else if 0xD800 ≤ unit ∧ unit ≤ 0xDBFF then
      match rest with
      | low :: more =>
        if 0xDC00 ≤ low ∧ low ≤ 0xDFFF then
          (charsOfUnits? more).map
            (Char.ofNat (0x10000 + (unit - 0xD800) * 0x400 + (low - 0xDC00)) :: ·)
        else none
      | [] => none
    else (charsOfUnits? rest).map (Char.ofNat unit :: ·)

/-- The characters of a stream, without the byte order mark at its start. -/
def decode? (bs : Bytes) : Option (List Char) :=
  let chars? :=
    match bs with
    | 0xFF :: 0xFE :: rest => (units? false rest).bind charsOfUnits?
    | 0xFE :: 0xFF :: rest => (units? true rest).bind charsOfUnits?
    | 0xEF :: 0xBB :: 0xBF :: rest => (Utf8.decode? rest).map String.toList
    | _ => (Utf8.decode? bs).map String.toList
  match chars? with
  | some cs => if cs.all isAllowed then some cs else none
  | none => none

/-- Line breaks. -/
def isBreak (c : Char) : Bool :=
  c == '\n' || c == '\r' || c == '\u0085' || c == '\u2028' || c == '\u2029'

/-- Spaces and tabs. -/
def isGap (c : Char) : Bool := c == ' ' || c == '\t'

/-- Letters, digits, dash and underscore. -/
def isWordChar (c : Char) : Bool := c.isAlphanum || c == '-' || c == '_'

/-- Whether a text is at its end, or goes on with a space, tab or line break. -/
def endsHere (cs : List Char) : Bool :=
  match cs with
  | [] => true
  | c :: _ => isGap c || isBreak c

/-- A position in a stream. -/
structure Cursor where
  rest : List Char
  /-- How many characters have been read. -/
  index : Nat
  line : Nat
  column : Nat
  deriving Repr

namespace Cursor

/-- The start of a stream. -/
def start (cs : List Char) : Cursor := ⟨cs, 0, 0, 0⟩

/-- Go on by characters of one line. -/
def advance (c : Cursor) (n : Nat) : Cursor :=
  { c with rest := c.rest.drop n, index := c.index + n, column := c.column + n }

/-- The characters in front that satisfy `p`, none of them a line break, and the position after
them. -/
def takeWhile (p : Char → Bool) (c : Cursor) : List Char × Cursor :=
  let taken := c.rest.takeWhile p
  (taken, c.advance taken.length)

/-- Go on by the characters in front that satisfy `p`, none of them a line break. -/
def skipWhile (p : Char → Bool) (c : Cursor) : Cursor := (c.takeWhile p).2

/-- The next line, if a line break stands here, and the character that the break counts as: a
separator of its own or a line feed. -/
def nextLine? (c : Cursor) : Option (Char × Cursor) :=
  let next := fun (n : Nat) (rest : List Char) =>
    ({ rest, index := c.index + n, line := c.line + 1, column := 0 } : Cursor)
  match c.rest with
  | '\r' :: '\n' :: rest => some ('\n', next 2 rest)
  | b :: rest =>
    if b = '\u2028' ∨ b = '\u2029' then some (b, next 1 rest)
    else if isBreak b then some ('\n', next 1 rest)
    else none
  | [] => none

/-- Whether a document marker stands here: three dashes or three dots at the start of a line. -/
def atMarker (c : Cursor) : Bool :=
  c.column == 0 &&
    match c.rest with
    | a :: b :: d :: rest => a == b && b == d && (a == '-' || a == '.') && endsHere rest
    | _ => false

/-- Go past a comment. -/
def skipComment (c : Cursor) : Cursor :=
  match c.rest with
  | '#' :: _ => c.skipWhile fun d => !isBreak d
  | _ => c

end Cursor

end LogSetup.Yaml
