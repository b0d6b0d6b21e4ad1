import LogSetup.Events.Traced

/-!
# Loaders

A loader answers four questions: the first resource of a name, every resource of a name, a file, a
URL. Resources are named relative to whatever the loader searches; files and URLs stand for
themselves. A loader that only knows resources by name gets the other answers from the file system.

## Main definitions

- `Loader` : the four answers
- `Loader.ofResources` : a loader that only knows resources by name
- `LoadingContext` : a named loader
- `Locator` : a loading context with what its loader answers at present
- `Locator.loadResource`, `openFile`, `openUrl` : the questions, as events
-/

namespace LogSetup

/-- What a loader answers. An answer without a source means that there is nothing of that name. -/
structure Loader where
  /-- The word for this kind of loader. -/
  kind : String
  loadResource : String → Except LoadError (Option Source)
  findResources : String → List (Except LoadError Source)
  openFile : FilePath → Except LoadError (Option Source)
  openUrl : Url → Except LoadError Source

namespace Loader

/-- Every resource of a name, for a loader that knows of one at most. -/
def allOf (first : Except LoadError (Option Source)) : List (Except LoadError Source) :=
  match first with
  | .ok (some s) => [.ok s]
  | .ok none => []
  | .error e => [.error e]

/-- A file of the file system, if there is one. -/
def openDiskFile (disk : FileTree) (p : FilePath) : Except LoadError (Option Source) :=
  if disk.isFile p then (Source.ofFile disk p).map some else .ok none

/-- What a URL denotes, for a loader that opens file URLs only. -/
def openFileUrl (openFile : FilePath → Except LoadError (Option Source)) (u : Url) :
    Except LoadError Source :=
  if !u.isFile then .error (.unsupportedScheme (String.ofList u.scheme) u.text)
  else
    match u.localPath? with
    | none => .error (.invalidLocation u.text "not a local file URL")
    | some p =>
      match openFile p with
      | .ok (some s) => .ok s
      | .ok none => .error (.notFound u.text)
      | .error e => .error e

/-- A loader that only knows resources by name: files, and the files that URLs denote, are those of
the file system. -/
def ofResources (kind : String) (disk : FileTree)
    (loadResource : String → Except LoadError (Option Source)) : Loader :=
  { kind
    loadResource
    findResources := fun name => allOf (loadResource name)
    openFile := openDiskFile disk
    openUrl := openFileUrl (openDiskFile disk) }

end Loader

/-- The scope in which names of resources are looked up. Two contexts may share a loader. -/
structure LoadingContext where
  name : String
  /-- Which loader it is. -/
  loader : Nat
  deriving DecidableEq, Repr

/-- Whether two contexts look names up with the same loader. -/
def LoadingContext.sameLoader (a b : LoadingContext) : Bool := a.loader == b.loader

/-- A loading context with what its loader answers at present. -/
structure Locator where
  context : LoadingContext
  loader : Loader

namespace Locator

/-- Ask for the first resource of a name. -/
def loadResource (l : Locator) (name : String) : Traced (Except LoadError (Option Source)) := do
  Traced.emit (.lookup l.context.loader (.resource name))
  Traced.settle .load (l.loader.loadResource name)

/-- Ask for every resource of a name. -/
def findResources (l : Locator) (name : String) : Traced (List (Except LoadError Source)) := do
  Traced.emit (.lookup l.context.loader (.resources name))
  pure (l.loader.findResources name)

/-- Ask for a file. -/
def openFile (l : Locator) (p : FilePath) : Traced (Except LoadError (Option Source)) := do
  Traced.emit (.lookup l.context.loader (.file p))
  Traced.settle .load (l.loader.openFile p)

/-- Ask for what a URL denotes. -/
def openUrl (l : Locator) (u : Url) : Traced (Except LoadError Source) := do
  Traced.emit (.lookup l.context.loader (.url u))
  Traced.settle .load (l.loader.openUrl u)

end Locator

end LogSetup
