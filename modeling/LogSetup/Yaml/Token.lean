import LogSetup.Yaml.Scalar

/-!
# YAML tokens

What a stream consists of once indentation has been turned into block tokens. This module reads the
tokens that are spelled out: directives, anchors, aliases and tags.

## Main definitions

- `Yaml.Token` : the tokens
- `Yaml.readAnchor?`, `Yaml.readTag?`, `Yaml.readDirective?` : the spelled-out ones
-/

namespace LogSetup.Yaml

/-- How a scalar was written: plain or with quotes, bars or angles. -/
inductive Style where
  | plain
  | marked
  deriving DecidableEq, Repr

/-- The tokens of a stream. -/
inductive Token where
  | version (major minor : Nat)
  | tagDirective (handle start : List Char)
  | documentStart
  | documentEnd
  | blockSequenceStart
  | blockMappingStart
  | blockEnd
  | flowSequenceStart
  | flowSequenceEnd
  | flowMappingStart
  | flowMappingEnd
  | blockEntry
  | flowEntry
  | key
  | value
  | aliasOf (name : List Char)
  | anchor (name : List Char)
  | tag (handle rest : List Char)
  | scalar (style : Style) (text : List Char)
  deriving DecidableEq, Repr

/-- The name after the sign of an anchor or alias, and the position after it. -/
def readAnchor? (c : Cursor) : Option (List Char × Cursor) :=
  let (name, c) := (c.advance 1).takeWhile isWordChar
  if name = [] then none
  else if endsHere c.rest ∨ c.rest.head?.any fun d => "?:,]\x7d%@\x60".toList.contains d then
    some (name, c)
  else none

/-! ### Tags -/

/-- The bytes of escapes that together make one character: how many follow a first byte. -/
def escapedTail? (lead : Nat) : Option Nat :=
  if 0x80 ≤ lead ∧ lead < 0xC2 then none else Utf8.tailLength? lead

/-- The escaped byte that starts here. -/
def escapedByte? : List Char → Option (UInt8 × List Char)
  | '%' :: a :: b :: rest => (Text.readDigits? 16 [a, b]).map fun n => (UInt8.ofNat n, rest)
  | _ => none

/-- Some escaped bytes in a row. -/
def escapedBytes? : Nat → List Char → Option (Bytes × List Char)
  | 0, cs => some ([], cs)
  | n + 1, cs =>
    match escapedByte? cs with
    | none => none
    | some (b, rest) => (escapedBytes? n rest).map fun (bs, more) => (b :: bs, more)

/-- The character whose UTF-8 form is escaped here, and what follows. -/
def escapedChar? (cs : List Char) : Option (Char × List Char) :=
  match escapedByte? cs with
  | none => none
  | some (lead, rest) =>
    match escapedTail? lead.toNat with
    | none => none
    | some n =>
      match escapedBytes? n rest with
      | none => none
      | some (tail, more) =>
        match (Utf8.decode? (lead :: tail)).map String.toList with
        | some [d] => some (d, more)
        | _ => none

/-- Characters of a tag as they may stand; the wider set is that of verbatim tags and directives. -/
def isTagChar (wide : Bool) (c : Char) : Bool :=
  isWordChar c || ";/?:@&=+$.!~*\x27()".toList.contains c ||
    (wide && (c == ',' || c == '[' || c == ']'))

/-- The characters of a tag with escapes replaced, and how many characters they take. -/
def tagChars? (wide : Bool) : Nat → List Char → Option (List Char × Nat)
  | 0, _ => some ([], 0)
  | _ + 1, [] => some ([], 0)
  | steps + 1, c :: rest =>
    if c = '%' then
      match escapedChar? (c :: rest) with
      | some (d, more) =>
        (tagChars? wide steps more).map fun (ds, n) =>
          (d :: ds, n + ((rest.length + 1) - more.length))
      | none => none
    else if isTagChar wide c then (tagChars? wide steps rest).map fun (ds, n) => (c :: ds, n + 1)
    else some ([], 0)

/-- A handle: an exclamation mark, or a word between two. -/
def readHandle? (c : Cursor) : Option (List Char × Cursor) :=
  match c.rest with
  | '!' :: _ =>
    let (word, after) := (c.advance 1).takeWhile isWordChar
    if after.rest.head? = some '!' then some ('!' :: (word ++ ['!']), after.advance 1)
    else some ('!' :: word, after)
  | _ => none

/-- A tag and the position after it: a handle and what follows the handle. A verbatim tag has an
empty handle, and so has the exclamation mark alone. -/
def readTag? (inFlow : Bool) (c : Cursor) : Option (Token × Cursor) :=
  let tag? : Option (Token × Cursor) :=
    if c.rest.tail.head? = some '<' then
      let c := c.advance 2
      match tagChars? true c.rest.length c.rest with
      | some (uri, n) =>
        let c := c.advance n
        if n = 0 ∨ c.rest.head? ≠ some '>' then none else some (.tag [] uri, c.advance 1)
      | none => none
    else
      match readHandle? c with
      | none => none
      | some (handle, c) =>
        match tagChars? false c.rest.length c.rest with
        | none => none
        | some (uri, n) =>
          let c := c.advance n
          if 1 < handle.length ∧ handle.getLast? = some '!' then
            if n = 0 then none else some (.tag handle uri, c)
          else
            let rest := handle.drop 1 ++ uri
            if rest = [] then some (.tag [] ['!'], c) else some (.tag ['!'] rest, c)
  match tag? with
  | none => none
  | some (t, c) =>
    if endsHere c.rest ∨ (inFlow ∧ c.rest.head? = some ',') then some (t, c) else none

/-! ### Directives -/

/-- A number of at most nine digits. -/
def versionNumber? (c : Cursor) : Option (Nat × Cursor) :=
  let (digits, c) := c.takeWhile Char.isDigit
  if digits = [] ∨ 9 < digits.length then none else (Text.readDigits? 10 digits).map (·, c)

/-- The version after the name of its directive. -/
def readVersion? (c : Cursor) : Option (Token × Cursor) :=
  match versionNumber? (c.skipWhile isGap) with
  | none => none
  | some (major, c) =>
    if c.rest.head? = some '.' then
      (versionNumber? (c.advance 1)).map fun (minor, c) => (.version major minor, c)
    else none

/-- The handle and its meaning after the name of the tag directive. -/
def readTagDirective? (c : Cursor) : Option (Token × Cursor) :=
  match readHandle? (c.skipWhile isGap) with
  | none => none
  | some (handle, c) =>
    if handle.getLast? ≠ some '!' ∨ !(c.rest.head?.any isGap) then none
    else
      let c := c.skipWhile isGap
      match tagChars? true c.rest.length c.rest with
      | none => none
      | some (start, n) =>
        if n = 0 ∨ !endsHere (c.advance n).rest then none
        else some (.tagDirective handle start, c.advance n)

/-- The directive whose percent sign stands here, up to the end of its line. -/
def readDirective? (c : Cursor) : Option (Token × Cursor) :=
  let (name, c) := (c.advance 1).takeWhile isWordChar
  if name = [] ∨ !endsHere c.rest then none
  else
    let read? : Option (Token × Cursor) :=
      if name = "YAML".toList then readVersion? c
      else if name = "TAG".toList then readTagDirective? c
      else none
    match read? with
    | none => none
    | some (t, c) =>
      let c := (c.skipWhile isGap).skipComment
      if c.rest = [] then some (t, c) else c.nextLine?.map fun (_, next) => (t, next)

end LogSetup.Yaml
