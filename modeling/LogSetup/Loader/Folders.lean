import LogSetup.Loader.Basic

/-!
# Loaders that search folders

A resource is a file below one of the roots, which are searched in order. Leading slashes of its
name do not count.

## Main definitions

- `FolderLoader` : the roots
- `FolderLoader.candidates` : the files that a name stands for
- `FolderLoader.loader` : what it answers
-/

namespace LogSetup

/-- The folders that are searched, in order. -/
structure FolderLoader where
  roots : List FilePath
  deriving DecidableEq, Repr

namespace FolderLoader

/-- A loader that searches the working folder. -/
def ofWorkingFolder (disk : FileTree) : FolderLoader := ⟨[disk.workingPath]⟩

/-- The paths that a name stands for, one below each root. -/
def paths (l : FolderLoader) (name : String) : List FilePath :=
  l.roots.map fun root => root.join (FilePath.ofText (Text.dropLeading '/' name))

/-- The paths of a name at which there is a file. -/
def candidates (l : FolderLoader) (disk : FileTree) (name : String) : List FilePath :=
  (l.paths name).filter disk.isFile

/-- Every resource of a name. -/
def findResources (l : FolderLoader) (disk : FileTree) (name : String) :
    List (Except LoadError Source) :=
  (l.candidates disk name).map (Source.ofFile disk)

/-- The first resource of a name. -/
def loadResource (l : FolderLoader) (disk : FileTree) (name : String) :
    Except LoadError (Option Source) :=
  match l.candidates disk name with
  | [] => .ok none
  | p :: _ => (Source.ofFile disk p).map some

/-- What the loader answers. -/
def loader (l : FolderLoader) (disk : FileTree) : Loader :=
  { Loader.ofResources "filesystem" disk (l.loadResource disk) with
    findResources := l.findResources disk }

end FolderLoader

end LogSetup
