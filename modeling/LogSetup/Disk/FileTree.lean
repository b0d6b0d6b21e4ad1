import LogSetup.Disk.Path

/-!
# The file system

A tree of folders and files, and the folder that relative paths start from. Looking up a path walks
its names one by one: each must be found in a folder, and a path that ends in a slash or dot must
end at a folder.

## Main definitions

- `IoError` : why a file cannot be read
- `FileTree` : folders and files by their names from the root
- `FileTree.find` : what stands at a path
- `FileTree.read` : the bytes of the file at a path
-/

namespace LogSetup

/-- Why a file or stream cannot be read. -/
inductive IoError where
  | notFound
  | notADirectory
  | isADirectory
  | nulInName
  | nameTooLong
  | notText
  | other (message : String)
  deriving DecidableEq, Repr

/-- The wording of an error. -/
def IoError.message : IoError → String
  | .notFound => "No such file or directory (os error 2)"
  | .notADirectory => "Not a directory (os error 20)"
  | .isADirectory => "Is a directory (os error 21)"
  | .nulInName => "file name contained an unexpected NUL byte"
  | .nameTooLong => "File name too long (os error 36)"
  | .notText => "stream did not contain valid UTF-8"
  | .other m => m

/-- The names on the way from the root. -/
abbrev Place := List Bytes

/-- What can stand at a place. -/
inductive Entry where
  | folder
  | file (data : Bytes)
  deriving DecidableEq, Repr

/-- The file system as a program finds it. -/
structure FileTree where
  /-- Where relative paths start. -/
  workingFolder : Place
  folders : List Place
  files : List (Place × Bytes)
  deriving Repr

namespace FileTree

/-- A place and the places on the way to it, without the root. -/
def wayTo (place : Place) : List Place := (List.range place.length).map fun n => place.take (n + 1)

/-- A file system that holds nothing but an empty working folder and the folders above it. -/
def empty (workingFolder : Place) : FileTree := ⟨workingFolder, wayTo workingFolder, []⟩

/-- What stands at a place. The root is always a folder. -/
def entry? (t : FileTree) (place : Place) : Option Entry :=
  match t.files.find? fun f => f.1 == place with
  | some f => some (.file f.2)
  | none => if place = [] ∨ place ∈ t.folders then some .folder else none

/-- The place of the folder that holds a place; the root holds itself. -/
def above (place : Place) : Place := place.dropLast

/-- Follow names from a place at which `here` stands. An empty name or a dot stays where it is, but
wants a folder to stay in. -/
def walk (t : FileTree) (place : Place) (here : Entry) : List Bytes → Except IoError Entry
  | [] => .ok here
  | name :: rest =>
    match here with
    | .file _ => .error .notADirectory
    | .folder =>
      if name = [] ∨ name = [FilePath.dot] then t.walk place here rest
      else if name = [FilePath.dot, FilePath.dot] then t.walk (above place) .folder rest
      else if 255 < name.length then .error .nameTooLong
      else
        match t.entry? (place ++ [name]) with
        | some next => t.walk (place ++ [name]) next rest
        | none => .error .notFound

/-- What stands at a path. -/
def find (t : FileTree) (p : FilePath) : Except IoError Entry :=
  if 0 ∈ p.bytes then .error .nulInName
  else if p.bytes = [] then .error .notFound
  else if 4096 ≤ p.bytes.length then .error .nameTooLong
  else
    t.walk (if p.isAbsolute then [] else t.workingFolder) .folder
      (Text.splitOn FilePath.slash p.bytes)

/-- The bytes of the file at a path. -/
def read (t : FileTree) (p : FilePath) : Except IoError Bytes :=
  match t.find p with
  | .ok (.file data) => .ok data
  | .ok .folder => .error .isADirectory
  | .error e => .error e

/-- Whether a file stands at a path. -/
def isFile (t : FileTree) (p : FilePath) : Bool :=
  match t.find p with
  | .ok (.file _) => true
  | _ => false

/-- Whether anything stands at a path. -/
def isThere (t : FileTree) (p : FilePath) : Bool := (t.find p).toBool

/-- The place that a relative path of plain names stands for. -/
def placeOf (t : FileTree) (p : FilePath) : Place :=
  (if p.isAbsolute then [] else t.workingFolder) ++ p.names.filter fun n => n ≠ [FilePath.dot]

/-- Add a folder and those above it. -/
def addFolder (t : FileTree) (place : Place) : FileTree :=
  { t with folders := t.folders ++ wayTo place }

/-- Add or replace a file, with the folders above it. -/
def addFile (t : FileTree) (place : Place) (data : Bytes) : FileTree :=
  { t.addFolder (above place) with
    files := (t.files.filter fun f => f.1 != place) ++ [(place, data)] }

/-- The text of the file at a path; its bytes must be well-formed UTF-8. -/
def readText (t : FileTree) (p : FilePath) : Except IoError String :=
  match t.read p with
  | .ok data =>
    match Utf8.decode? data with
    | some s => .ok s
    | none => .error .notText
  | .error e => .error e

/-- The absolute path of the working folder. -/
def workingPath (t : FileTree) : FilePath :=
  ⟨t.workingFolder.flatMap fun n => FilePath.slash :: n⟩

end FileTree

end LogSetup
