import LogSetup.Text.Numeral
import LogSetup.Text.Utf8

/-!
# Percent encoding

Characters that a part of a URL may not hold are written as the bytes of their UTF-8 form, each as
a percent sign and two hexadecimal digits. Which characters those are differs by part; every set
holds the control characters and everything outside ASCII.

## Main definitions

- `Percent.encode` : a text with the characters of a set encoded
- `Percent.decode` : the bytes of a text with the escapes replaced
- `Percent.fragmentSet`, `querySet`, `specialQuerySet`, `pathSet`, `userSet` : the sets
-/

namespace LogSetup.Percent

/-- Characters that no part of a URL holds. -/
def controlSet (c : Char) : Bool := c.toNat < 0x20 || 0x7F ≤ c.toNat

/-- Characters encoded in a fragment. The last one is the grave accent. -/
def fragmentSet (c : Char) : Bool :=
  controlSet c || c == ' ' || c == '\x22' || c == '<' || c == '>' || c == '\x60'

/-- Characters encoded in a query. -/
def querySet (c : Char) : Bool :=
  controlSet c || c == ' ' || c == '\x22' || c == '#' || c == '<' || c == '>'

/-- Characters encoded in the query of a URL with a special scheme: also the apostrophe. -/
def specialQuerySet (c : Char) : Bool := querySet c || c == '\x27'

/-- Characters encoded in a path. -/
def pathSet (c : Char) : Bool :=
  fragmentSet c || c == '#' || c == '?' || c == '\x7b' || c == '\x7d'

/-- Characters encoded in a user name or password. -/
def userSet (c : Char) : Bool :=
  pathSet c || c == '/' || c == ':' || c == ';' || c == '=' || c == '@' || c == '[' || c == '\\' ||
    c == ']' || c == '^' || c == '|'

/-- The escape of a byte. -/
def escape (b : UInt8) : List Char :=
  ['%', Text.hexDigit (b.toNat / 16), Text.hexDigit (b.toNat % 16)]

/-- A character as it stands or as escapes. -/
def encodeChar (set : Char → Bool) (c : Char) : List Char :=
  if set c then (String.utf8EncodeChar c).flatMap escape else [c]

/-- A text with the characters of a set encoded. -/
def encode (set : Char → Bool) (cs : List Char) : List Char := cs.flatMap (encodeChar set)

/-- The value of a byte that is a hexadecimal digit. -/
def hexByte? (b : UInt8) : Option Nat :=
  match Text.digitValue? (Char.ofNat b.toNat) with
  | some d => if d < 16 then some d else none
  | none => none

/-- The bytes with every complete escape replaced by its byte; a lone percent sign stays. -/
def decodeBytes : Bytes → Bytes
  | [] => []
  | b :: rest =>
    if b = 0x25 then
      match rest with
      | high :: low :: more =>
        match hexByte? high, hexByte? low with
        | some h, some l => UInt8.ofNat (16 * h + l) :: decodeBytes more
        | _, _ => b :: decodeBytes (high :: low :: more)
      | [last] => [b, last]
      | [] => [b]
    else b :: decodeBytes rest

/-- The bytes of a text with the escapes replaced. -/
def decode (cs : List Char) : Bytes := decodeBytes (cs.flatMap String.utf8EncodeChar)

end LogSetup.Percent
