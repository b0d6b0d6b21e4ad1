import LogSetup.Loader.Basic
import LogSetup.Url.Reading

/-!
# Loaders that hold their content

Resources are kept by their name without leading slashes. A resource may be added again, which
stands for a further place where the name is found; it may also be added broken, so that it is
there but cannot be read. Files are kept by path and URLs by the text they were added with, and the
last addition counts.

## Main definitions

- `MemoryLoader` : the content
- `MemoryLoader.addResource`, `addFile`, `addUrl`, `removeResource` : changes
- `MemoryLoader.loader` : what it answers
-/

namespace LogSetup

/-- What was added under the name of a resource. -/
inductive Deposit where
  | data (data : Bytes)
  | broken (message : String)
  deriving DecidableEq, Repr

/-- A loader's own content. -/
structure MemoryLoader where
  /-- Resources by name, each with the additions in their order. -/
  resources : List (String × List Deposit)
  files : List (FilePath × Bytes)
  urls : List (String × Bytes)
  deriving Repr

namespace MemoryLoader

/-- No content. -/
def empty : MemoryLoader := ⟨[], [], []⟩

/-- The name that a resource is kept by. -/
def key (name : String) : String := Text.dropLeading '/' name

/-- The additions under a key; none when there is no such key. -/
def deposits (m : MemoryLoader) (key : String) : List Deposit :=
  ((m.resources.find? fun r => r.1 == key).map (·.2)).getD []

/-- Put an addition behind those of its key. -/
def deposit (key : String) (d : Deposit) :
    List (String × List Deposit) → List (String × List Deposit)
  | [] => [(key, [d])]
  | r :: rest => if r.1 = key then (r.1, r.2 ++ [d]) :: rest else r :: deposit key d rest

/-- Add a resource; under a name that is taken it is found after the earlier ones. -/
def addResource (m : MemoryLoader) (name : String) (d : Deposit) : MemoryLoader :=
  { m with resources := deposit (key name) d m.resources }

/-- Add or replace a file. -/
def addFile (m : MemoryLoader) (p : FilePath) (data : Bytes) : MemoryLoader :=
  { m with files := (p, data) :: m.files }

/-- Add or replace what a URL denotes. -/
def addUrl (m : MemoryLoader) (text : String) (data : Bytes) : MemoryLoader :=
  { m with urls := (text, data) :: m.urls }

/-- Whether there is a resource with exactly this key. -/
def hasKey (m : MemoryLoader) (key : String) : Bool := m.resources.any fun r => r.1 == key

/-- Remove every resource kept by exactly this key. -/
def removeResource (m : MemoryLoader) (key : String) : MemoryLoader :=
  { m with resources := m.resources.filter fun r => r.1 != key }

/-- The origin of an addition: a URL made of its number and key where that is one. -/
def originOf (key : String) (number : Nat) : Origin :=
  match Url.read ("memory://root" ++ Text.decimal number ++ "/" ++ key) with
  | .ok u => .url u
  | .error _ => .unknown

/-- What an addition reads as. -/
def sourceOf (key : String) (number : Nat) : Deposit → Except LoadError Source
  | .data data => .ok ⟨data, originOf key number⟩
  | .broken message => .error (.io key (.other message))

/-- Every resource of a name. -/
def findResources (m : MemoryLoader) (name : String) : List (Except LoadError Source) :=
  (m.deposits (key name)).mapIdx fun number d => sourceOf (key name) number d

/-- The first resource of a name. -/
def loadResource (m : MemoryLoader) (name : String) : Except LoadError (Option Source) :=
  match m.deposits (key name) with
  | [] => .ok none
  | d :: _ => (sourceOf (key name) 0 d).map some

/-- The file at a path, under any spelling of it. -/
def openFile (m : MemoryLoader) (p : FilePath) : Except LoadError (Option Source) :=
  .ok ((m.files.find? fun f => f.1.same p).map fun f => ⟨f.2, .file p⟩)

/-- What was added under the text of a URL. -/
def openAdded (m : MemoryLoader) (u : Url) : Except LoadError Source :=
  match m.urls.find? fun e => e.1 == u.text with
  | some e => .ok ⟨e.2, .url u⟩
  | none => .error (.notFound u.text)

/-- What a URL denotes: a file where it has the scheme of files and a local path, and else what was
added under its text. -/
def openUrl (m : MemoryLoader) (u : Url) : Except LoadError Source :=
  if u.isFile then
    match u.localPath? with
    | some p =>
      match m.openFile p with
      | .ok (some s) => .ok s
      | .ok none => .error (.notFound u.text)
      | .error e => .error e
    | none => m.openAdded u
  else m.openAdded u

/-- What the content answers. -/
def loader (m : MemoryLoader) : Loader :=
  { kind := "memory"
    loadResource := m.loadResource
    findResources := m.findResources
    openFile := m.openFile
    openUrl := m.openUrl }

end MemoryLoader

end LogSetup
