import LogSetup.Json.Number

/-!
# Reading JSON

A text holds one value, with blanks around it. Objects and arrays nest at most 127 deep. Of two
members of one name the later counts, which is for the user of the object to decide: the reader
keeps both.

## Main definitions

- `Json.readString?` : the string after an opening quote
- `Json.read?` : the value that a text holds
-/

namespace LogSetup.Json

/-- Drop spaces, tabs and line breaks. -/
def skipBlanks (cs : List Char) : List Char :=
  cs.dropWhile fun c => c == ' ' || c == '\t' || c == '\n' || c == '\r'

/-- Four hexadecimal digits. -/
def readUnit? : List Char → Option (Nat × List Char)
  | a :: b :: c :: d :: rest => (Text.readDigits? 16 [a, b, c, d]).map (·, rest)
  | _ => none

/-- The character written as one or two escaped units. -/
def readEscapedUnit? (cs : List Char) : Option (Char × List Char) :=
  match readUnit? cs with
  | none => none
  | some (unit, rest) =>
    if 0xDC00 ≤ unit ∧ unit ≤ 0xDFFF then none
    else if 0xD800 ≤ unit ∧ unit ≤ 0xDBFF then
      match rest with
      | '\\' :: 'u' :: more =>
        match readUnit? more with
        | some (second, rest) =>
          if 0xDC00 ≤ second ∧ second ≤ 0xDFFF then
            some (Char.ofNat (0x10000 + (unit - 0xD800) * 0x400 + (second - 0xDC00)), rest)
          else none
        | none => none
      | _ => none
    else some (Char.ofNat unit, rest)

/-- The character that an escape other than a unit stands for. -/
def simpleEscape? (c : Char) : Option Char :=
  if c = '\x22' ∨ c = '\\' ∨ c = '/' then some c
  else if c = 'b' then some '\x08'
  else if c = 'f' then some '\x0c'
  else if c = 'n' then some '\n'
  else if c = 'r' then some '\r'
  else if c = 't' then some '\t'
  else none

/-- The characters up to the closing quote and what follows it; each step reads a character or an
escape, so as many steps as characters are enough. -/
def readStringChars? : Nat → List Char → Option (List Char × List Char)
  | 0, _ => none
  | _ + 1, [] => none
  | steps + 1, c :: rest =>
    if c = '\x22' then some ([], rest)
    else if c.toNat < 0x20 then none
    else if c = '\\' then
      let escaped? :=
        match rest with
        | 'u' :: more => readEscapedUnit? more
        | e :: more => (simpleEscape? e).map (·, more)
        | [] => none
      match escaped? with
      | some (d, more) => (readStringChars? steps more).map fun (ds, left) => (d :: ds, left)
      | none => none
    else (readStringChars? steps rest).map fun (ds, left) => (c :: ds, left)

/-- The string after an opening quote. -/
def readString? (cs : List Char) : Option (String × List Char) :=
  (readStringChars? (cs.length + 1) cs).map fun (s, rest) => (String.ofList s, rest)

/-- Drop a fixed word. -/
def dropWord? (word : String) (cs : List Char) : Option (List Char) :=
  if word.toList.isPrefixOf cs then some (cs.drop word.length) else none

mutual

/-- A value after blanks. Every step takes a character, so `steps` bounds the recursion; `depth` is
how many further levels may nest. -/
def readValue? : Nat → Nat → List Char → Option (Value × List Char)
  | 0, _, _ => none
  | steps + 1, depth, cs =>
    match skipBlanks cs with
    | '\x22' :: rest => (readString? rest).map fun (s, left) => (.string s, left)
    | '[' :: rest =>
      if depth = 0 then none
      else
        match skipBlanks rest with
        | ']' :: left => some (.array [], left)
        | items => (readItems? steps (depth - 1) items).map fun (vs, left) => (.array vs, left)
    | '\x7b' :: rest =>
      if depth = 0 then none
      else
        match skipBlanks rest with
        | '\x7d' :: left => some (.object [], left)
        | members =>
          (readMembers? steps (depth - 1) members).map fun (ms, left) => (.object ms, left)
    | 't' :: rest => (dropWord? "rue" rest).map (.bool true, ·)
    | 'f' :: rest => (dropWord? "alse" rest).map (.bool false, ·)
    | 'n' :: rest => (dropWord? "ull" rest).map (.null, ·)
    | other => (readNumber? other).map fun (n, left) => (.number n, left)

/-- Values with commas between them, up to the closing bracket. -/
def readItems? : Nat → Nat → List Char → Option (List Value × List Char)
  | 0, _, _ => none
  | steps + 1, depth, cs =>
    match readValue? steps depth cs with
    | none => none
    | some (v, left) =>
      match skipBlanks left with
      | ']' :: rest => some ([v], rest)
      | ',' :: rest => (readItems? steps depth rest).map fun (vs, left) => (v :: vs, left)
      | _ => none

/-- Members with commas between them, up to the closing brace. -/
def readMembers? : Nat → Nat → List Char → Option (List (String × Value) × List Char)
  | 0, _, _ => none
  | steps + 1, depth, cs =>
    match skipBlanks cs with
    | '\x22' :: rest =>
      match readString? rest with
      | none => none
      | some (key, left) =>
        match skipBlanks left with
        | ':' :: rest =>
          match readValue? steps depth rest with
          | none => none
          | some (v, left) =>
            match skipBlanks left with
            | '\x7d' :: rest => some ([(key, v)], rest)
            | ',' :: rest =>
              (readMembers? steps depth rest).map fun (ms, left) => ((key, v) :: ms, left)
            | _ => none
        | _ => none
    | _ => none

end

/-- How deep objects and arrays may nest. -/
def depthLimit : Nat := 127

/-- The value that a text holds. -/
def read? (s : String) : Option Value :=
  let cs := s.toList
  match readValue? (2 * cs.length + 2) depthLimit cs with
  | some (v, left) => if (skipBlanks left).isEmpty then some v else none
  | none => none

end LogSetup.Json
