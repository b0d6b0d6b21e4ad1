import LogSetup.Loader.Basic

/-!
# Loaders with a fixed table

The least that a loader can be: a table of answers by exact name. Its sources come from nowhere in
particular.

## Main definitions

- `TableLoader` : the table
- `TableLoader.loader` : what it answers
-/

namespace LogSetup

/-- What a table holds under a name. -/
inductive TableEntry where
  | data (data : Bytes)
  | failure (cause : LoadError)
  deriving DecidableEq, Repr

/-- Answers by exact name. -/
structure TableLoader where
  entries : List (String × TableEntry)
  deriving Repr

namespace TableLoader

/-- The answer under a name. -/
def loadResource (t : TableLoader) (name : String) : Except LoadError (Option Source) :=
  match t.entries.find? fun e => e.1 == name with
  | none => .ok none
  | some (_, .data data) => .ok (some (Source.ofBytes data))
  | some (_, .failure cause) => .error cause

/-- What the table answers. -/
def loader (t : TableLoader) (disk : FileTree) : Loader :=
  Loader.ofResources "basic" disk t.loadResource

end TableLoader

end LogSetup
