import LogSetup.Factories.FactoryError
import LogSetup.Plugins.PluginError
import LogSetup.Status.Logger

/-!
# What happens during a call

Besides its answer a call leaves traces: status messages, lookups in loaders, plug-ins built,
sources handed to factories and factories asked for a configuration. They are kept as one list in
the order in which they happened, so that their relative order can be stated.

## Main definitions

- `Lookup` : a question to a loader
- `Failure` : an error value that was returned to the set-up code
- `Event` : one thing that happened
- `statusOf`, `lookupsOf`, `buildsOf`, `parsesOf`, `asksOf` : the events of one kind
-/

namespace LogSetup

/-- A question to a loader. -/
inductive Lookup where
  /-- The first resource of a name. -/
  | resource (name : String)
  /-- Every resource of a name. -/
  | resources (name : String)
  | file (path : FilePath)
  | url (url : Url)
  deriving DecidableEq, Repr

/-- The text that a lookup is recorded as: a name as it was given, a file by its path, and a URL by
its text unless it denotes a file. -/
def Lookup.text : Lookup → String
  | .resource name => name
  | .resources name => name
  | .file p => "file:" ++ p.display
  | .url u =>
    match Origin.ofUrl u with
    | .file p => "file:" ++ p.display
    | _ => u.text

/-- An error value that was returned to the set-up code, which must report it. -/
inductive Failure where
  | load (cause : LoadError)
  | plugin (cause : PluginError)
  | factory (cause : FactoryError)
  deriving DecidableEq, Repr

/-- The wording of a failure. -/
def Failure.message : Failure → String
  | .load cause => cause.message
  | .plugin cause => cause.message
  | .factory cause => cause.message

/-- One thing that happened. -/
inductive Event where
  | status (message : StatusMessage)
  | lookup (loader : Nat) (lookup : Lookup)
  /-- A candidate was asked for its plug-in. -/
  | built (candidate : Nat)
  /-- A source was handed to a factory. -/
  | parsed (factory : Nat) (source : Source)
  /-- A factory was asked for a configuration. -/
  | asked (factory : Nat)
  | failed (failure : Failure)
  deriving DecidableEq, Repr

/-- The status messages among events. -/
def statusOf (es : List Event) : List StatusMessage :=
  es.filterMap fun
    | .status m => some m
    | _ => none

/-- The lookups made in a loader. -/
def lookupsOf (loader : Nat) (es : List Event) : List Lookup :=
  es.filterMap fun
    | .lookup l q => if l = loader then some q else none
    | _ => none

/-- How often a candidate was asked for its plug-in. -/
def buildsOf (candidate : Nat) (es : List Event) : Nat := es.countP (· == .built candidate)

/-- The sources that a factory was handed. -/
def parsesOf (factory : Nat) (es : List Event) : List Source :=
  es.filterMap fun
    | .parsed f s => if f = factory then some s else none
    | _ => none

/-- The factories that were asked for a configuration. -/
def asksOf (es : List Event) : List Nat :=
  es.filterMap fun
    | .asked f => some f
    | _ => none

end LogSetup
