import LogSetup.Url.Basic

/-!
# Sources

A source is data together with where it came from.

## Main definitions

- `Origin` : a file, a URL, or nowhere in particular
- `Origin.ofUrl` : the origin that a URL stands for
- `Source` : data and its origin
-/

namespace LogSetup

/-- Where data came from. -/
inductive Origin where
  | file (path : FilePath)
  | url (url : Url)
  /-- Data that was handed over directly. -/
  | unknown
  deriving DecidableEq, Repr

namespace Origin

/-- A file URL stands for its file where it denotes one, and every other URL for itself. -/
def ofUrl (u : Url) : Origin :=
  match (if u.isFile then u.localPath? else none) with
  | some p => .file p
  | none => .url u

/-- The text that type tokens are compared with. -/
def location : Origin → Option String
  | .file p => some p.display
  | .url u => some u.text
  | .unknown => none

/-- How an origin is shown in messages. -/
def display (o : Origin) : String := o.location.getD "unknown source"

end Origin

/-- Data that a configuration or manifest is read from. -/
structure Source where
  data : Bytes
  origin : Origin
  deriving DecidableEq, Repr

namespace Source

/-- Data that was handed over directly. -/
def ofBytes (data : Bytes) : Source := ⟨data, .unknown⟩

/-- The text that type tokens are compared with. -/
def location (s : Source) : Option String := s.origin.location

end Source

end LogSetup
