/-!
# Bytes and the UTF-8 form of a text

Data is a list of bytes. Reading it as text either insists on well-formed UTF-8 or replaces every
maximal ill-formed run by one U+FFFD, as the Unicode standard recommends.

## Main definitions

- `Bytes` : data
- `Utf8.encode` : the bytes of a text
- `Utf8.decode?` : the text of well-formed bytes
- `Utf8.decodeLossy` : the text of any bytes
-/

namespace LogSetup

/-- Data as it stands in a file, a resource or a manifest. -/
abbrev Bytes := List UInt8

namespace Utf8

/-- The bytes of a text. -/
def encode (s : String) : Bytes := s.toList.flatMap String.utf8EncodeChar

/-- The range that the second byte of a longer form must fall into, by the first byte. -/
def secondRange (lead : Nat) : Nat × Nat :=
  if lead = 0xE0 then (0xA0, 0xBF)
  else if lead = 0xED then (0x80, 0x9F)
  else if lead = 0xF0 then (0x90, 0xBF)
  else if lead = 0xF4 then (0x80, 0x8F)
  else (0x80, 0xBF)

/-- How many bytes follow a first byte; none for a byte that starts nothing. -/
def tailLength? (lead : Nat) : Option Nat :=
  if lead < 0x80 then some 0
  else if 0xC2 ≤ lead ∧ lead ≤ 0xDF then some 1
  else if 0xE0 ≤ lead ∧ lead ≤ 0xEF then some 2
  else if 0xF0 ≤ lead ∧ lead ≤ 0xF4 then some 3
  else none

/-- The payload bits of a first byte. -/
def leadBits (lead : Nat) : Nat :=
  if lead < 0x80 then lead
  else if lead < 0xE0 then lead - 0xC0
  else if lead < 0xF0 then lead - 0xE0
  else lead - 0xF0

/-- Take `need` continuation bytes, the first of them within the given range. The answer is the
code point if all are there, and how many were taken. -/
def takeTail (low high : Nat) : Nat → Nat → Bytes → Option Nat × Nat
  | 0, code, _ => (some code, 0)
  | _ + 1, _, [] => (none, 0)
  | need + 1, code, b :: rest =>
    if low ≤ b.toNat ∧ b.toNat ≤ high then
      let (result, used) := takeTail 0x80 0xBF need (code * 64 + (b.toNat - 0x80)) rest
      (result, used + 1)
    else (none, 0)

/-- The character that starts with byte `lead`, or nothing for an ill-formed run, and how many of
the bytes after `lead` belong to it. -/
def readChar (lead : UInt8) (rest : Bytes) : Option Char × Nat :=
  match tailLength? lead.toNat with
  | none => (none, 0)
  | some need =>
    let (low, high) := secondRange lead.toNat
    let (code, used) := takeTail low high need (leadBits lead.toNat) rest
    (code.map Char.ofNat, used)

/-- The characters of any bytes; an ill-formed run reads as nothing. -/
def scan : Bytes → List (Option Char)
  | [] => []
  | lead :: rest =>
    let step := readChar lead rest
    step.1 :: scan (rest.drop step.2)
termination_by bs => bs.length
decreasing_by simp only [List.length_drop, List.length_cons]; omega

/-- The text of well-formed bytes. -/
def decode? (bs : Bytes) : Option String :=
  ((scan bs).mapM id).map String.ofList

/-- The text of any bytes, with U+FFFD for each maximal ill-formed run. -/
def decodeLossy (bs : Bytes) : String :=
  String.ofList ((scan bs).map fun c => c.getD '\uFFFD')

/-- Whether the bytes are well-formed. -/
def isValid (bs : Bytes) : Bool := (scan bs).all Option.isSome

end Utf8

end LogSetup
