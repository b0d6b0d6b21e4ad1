import LogSetup.Text.Split
import LogSetup.Text.Utf8

/-!
# File paths

A path is a string of bytes. It is shown as it was given, but two paths are the same when they have
the same components: repeated slashes, inner `.` components and a slash or dot at the end do not
matter, while `..` and a leading `./` do.

## Main definitions

- `FilePath` : a path
- `FilePath.components` : what it is compared by
- `FilePath.join` : a path below another
- `FilePath.extension?` : the part of the last name after its last dot
-/

namespace LogSetup

/-- A path in the file system. -/
structure FilePath where
  bytes : Bytes
  deriving DecidableEq, Repr, Inhabited

namespace FilePath

/-- The byte that separates names. -/
def slash : UInt8 := 0x2F

/-- The byte that starts an extension. -/
def dot : UInt8 := 0x2E

/-- The path that a text names. -/
def ofText (s : String) : FilePath := ⟨Utf8.encode s⟩

/-- The text that shows a path. -/
def display (p : FilePath) : String := Utf8.decodeLossy p.bytes

/-- The path starts at the root. -/
def isAbsolute (p : FilePath) : Bool := p.bytes.head? == some slash

/-- One step of a path. -/
inductive Component where
  | root
  | here
  | parent
  | name (bytes : Bytes)
  deriving DecidableEq, Repr

/-- The step that a name stands for. -/
def Component.ofName (bytes : Bytes) : Component :=
  if bytes = [dot, dot] then .parent else .name bytes

/-- The names between the slashes, without empty ones. -/
def names (p : FilePath) : List Bytes := (Text.splitOn slash p.bytes).filter fun n => n ≠ []

/-- The steps of a path: a dot counts only as the very first name of a relative path. -/
def components (p : FilePath) : List Component :=
  let steps := (p.names.filter fun n => n ≠ [dot]).map Component.ofName
  if p.isAbsolute then .root :: steps
  else if p.names.head? = some [dot] then .here :: steps
  else steps

/-- Two spellings of one path. -/
def same (p q : FilePath) : Bool := p.components == q.components

/-- The path of `name` below `p`; an absolute `name` stands for itself. -/
def join (p name : FilePath) : FilePath :=
  if name.isAbsolute then name
  else if p.bytes = [] then name
  else if p.bytes.getLast? = some slash then ⟨p.bytes ++ name.bytes⟩
  else ⟨p.bytes ++ slash :: name.bytes⟩

/-- The last name, if the path ends in one. -/
def lastName? (p : FilePath) : Option Bytes :=
  match p.components.getLast? with
  | some (.name n) => some n
  | _ => none

/-- What follows the last dot of the last name, if something stands before that dot. -/
def extension? (p : FilePath) : Option Bytes :=
  match p.lastName? with
  | none => none
  | some n =>
    match (Text.splitOn dot n).reverse with
    | last :: front :: more => if front = [] ∧ more = [] then none else some last
    | _ => none

end FilePath

end LogSetup
