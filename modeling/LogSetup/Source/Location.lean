import LogSetup.Source.LoadError
import LogSetup.Text.Blank
import LogSetup.Url.Reading

/-!
# Locations

A location as a user writes it is a resource of the loading context after `classpath:` or
`classloader:`, a URL when it has a scheme of two letters or more, and else a path, which may name
a file or a resource. A scheme of one letter is taken for a drive.

## Main definitions

- `Location` : the three kinds
- `Location.parse` : reading a location
- `Location.display` : writing it
- `Location.filePath?`, `Location.resourcePath?` : what it can be looked up as
-/

namespace LogSetup

/-- A parsed location. -/
inductive Location where
  | path (text : String)
  | resource (name : String)
  | url (url : Url)
  deriving DecidableEq, Repr

namespace Location

/-- The scheme of resources. -/
def resourceScheme : String := "classpath"

/-- The other scheme of resources. -/
def otherResourceScheme : String := "classloader"

/-- The text after the scheme of resources, if the text has that scheme in any case of letters. -/
def afterResourceScheme? (raw : List Char) : Option (List Char) :=
  match Text.cut? ':' raw with
  | none => none
  | some (scheme, rest) =>
    let scheme := Text.lowerAscii scheme
    if scheme = resourceScheme.toList ∨ scheme = otherResourceScheme.toList then some rest else none

/-- The location that a trimmed text without the scheme of resources stands for. -/
def ofPlain (raw : String) : Except LoadError Location :=
  match Url.read raw with
  | .ok u => .ok (if 1 < u.scheme.length then .url u else .path raw)
  | .error .relativeWithoutBase => .ok (.path raw)
  | .error e => .error (.invalidLocation raw e.message)

/-- The location that a text stands for. -/
def parse (raw : String) : Except LoadError Location :=
  let text := Text.trim raw
  if text = "" then .error (.invalidLocation "" "empty location")
  else
    match afterResourceScheme? text.toList with
    | some rest => .ok (.resource (Text.dropLeading '/' (String.ofList rest)))
    | none => ofPlain text

/-- How a location is written. -/
def display : Location → String
  | .path text => text
  | .resource name => resourceScheme ++ ":" ++ name
  | .url u => u.text

/-- The file that a path or file URL denotes. -/
def filePath? : Location → Option FilePath
  | .path text => some (FilePath.ofText text)
  | .resource _ => none
  | .url u => if u.isFile then u.localPath? else none

/-- The name under which the loading context may know the location. -/
def resourcePath? : Location → Option String
  | .path text => some text
  | .resource name => some name
  | .url _ => none

/-- Whether the location has a scheme. -/
def isAbsolute : Location → Bool
  | .path _ => false
  | _ => true

/-- Equal locations: paths are compared as paths are, and the others by their text. -/
def same : Location → Location → Bool
  | .path a, .path b => (FilePath.ofText a).same (FilePath.ofText b)
  | .resource a, .resource b => a == b
  | .url a, .url b => a.text == b.text
  | _, _ => false

end Location

end LogSetup
