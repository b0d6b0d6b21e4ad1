import LogSetup.Loader.Basic
import LogSetup.Source.Location

/-!
# Opening a location

A parsed location is tried as a file and as a resource of the loading context, in one order or the
other, and then as a URL. A location as it was written is tried parsed first and then literally: as
a URL, as the name of a resource, and as a path. What goes wrong on the way is reported and the next
way is tried.

## Main definitions

- `Locator.openResource` : a resource of the loading context
- `Locator.openLocation` : files first
- `Locator.openPreferringContext` : resources first
- `Locator.openText` : a location as it was written
-/

namespace LogSetup.Locator

/-- A resource of the loading context. -/
def openResource (l : Locator) (name : String) : Traced (Option Source) := do
  match ← l.loadResource name with
  | .ok source => pure source
  | .error e =>
    Traced.report .debug ("Unable to load resource " ++ name ++ ": " ++ e.message)
    pure none

/-- The resource that a location may name. -/
def openAsResource (l : Locator) (location : Location) : Traced (Option Source) :=
  match location.resourcePath? with
  | some name => l.openResource name
  | none => pure none

/-- The file that a location may denote. -/
def openAsFile (l : Locator) (location : Location) : Traced (Option Source) :=
  match location.filePath? with
  | none => pure none
  | some p => do
    match ← l.openFile p with
    | .ok source => pure source
    | .error e =>
      Traced.report .error ("Cannot open file " ++ p.display ++ ": " ++ e.message)
      pure none

/-- The last way: a URL that is no file URL. -/
def openAsUrl (l : Locator) (location : Location) : Traced (Option Source) := do
  let missing := do
    Traced.report .error
      ("File not found in file system or loading context: " ++ location.display)
    pure none
  match location with
  | .url u =>
    if u.isFile then missing
    else
      match ← l.openUrl u with
      | .ok source => pure (some source)
      | .error e =>
        Traced.report .error ("Unable to access " ++ u.text ++ ": " ++ e.message)
        pure none
  | _ => missing

/-- Open a location: as a file, as a resource, as a URL. -/
def openLocation (l : Locator) (location : Location) : Traced (Option Source) :=
  Traced.firstSome (fun way => way l location) [openAsFile, openAsResource, openAsUrl]

/-- Open a location: as a resource, as a file, as a URL. -/
def openPreferringContext (l : Locator) (location : Location) : Traced (Option Source) :=
  Traced.firstSome (fun way => way l location) [openAsResource, openAsFile, openAsUrl]

/-- A written location by way of its parsed form. -/
def openParsed (l : Locator) (raw : String) : Traced (Option Source) := do
  match ← (Traced.settle .load (Location.parse raw)) with
  | .ok location => l.openLocation location
  | .error e =>
    Traced.report .debug e.message
    pure none

/-- A written location that is literally a URL. -/
def openLiteralUrl (l : Locator) (raw : String) : Traced (Option Source) :=
  match Url.read raw with
  | .error _ => pure none
  | .ok u =>
    if 1 < u.scheme.length then do
      match ← l.openUrl u with
      | .ok source => pure (some source)
      | .error e =>
        Traced.report .debug ("Unable to open " ++ raw ++ " as a URL: " ++ e.message)
        pure none
    else pure none

/-- A written location that is literally a path. -/
def openLiteralFile (l : Locator) (raw : String) : Traced (Option Source) := do
  match ← l.openFile (FilePath.ofText raw) with
  | .ok source => pure source
  | .error e =>
    Traced.report .debug ("Unable to open " ++ raw ++ " as a file: " ++ e.message)
    pure none

/-- Open a location as it was written. -/
def openText (l : Locator) (raw : String) : Traced (Option Source) :=
  Traced.firstSome (fun way => way l raw)
    [openParsed, openLiteralUrl, openResource, openLiteralFile]

end LogSetup.Locator
