import LogSetup.Disk.FileTree
import LogSetup.Source.Basic

/-!
# Why a source cannot be opened

## Main definitions

- `LoadError` : the causes
- `LoadError.message` : their wording
- `Source.ofFile` : the source in a file
-/

namespace LogSetup

/-- Why a source cannot be opened. -/
inductive LoadError where
  | notFound (name : String)
  | io (location : String) (cause : IoError)
  | invalidLocation (location message : String)
  | unsupportedScheme (scheme location : String)
  deriving DecidableEq, Repr

/-- The wording of an error. -/
def LoadError.message : LoadError → String
  | .notFound name => "Resource not found: " ++ name
  | .io location cause => "Unable to read " ++ location ++ ": " ++ cause.message
  | .invalidLocation location message => "Invalid location " ++ location ++ ": " ++ message
  | .unsupportedScheme scheme location =>
    "Unsupported scheme '" ++ scheme ++ "' in " ++ location

/-- The source in a file. -/
def Source.ofFile (t : FileTree) (p : FilePath) : Except LoadError Source :=
  match t.read p with
  | .ok data => .ok ⟨data, .file p⟩
  | .error e => .error (.io p.display e)

end LogSetup
