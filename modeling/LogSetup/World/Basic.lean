import LogSetup.Loader.Folders
import LogSetup.Loader.Memory
import LogSetup.Loader.Scopes
import LogSetup.Loader.Table
import LogSetup.Providers.Registry
import LogSetup.Resolving.Pipeline
import LogSetup.Settings.File

/-!
# The state of a process

Everything that calls can see or change: the file system, the content of loaders, settings,
plug-ins, the catalog, the factory that requests are sent to, providers, and what each thread has
entered.

## Main definitions

- `Store` : the content of a loader
- `ActiveFactory` : where requests are sent
- `World` : the state
-/

namespace LogSetup

/-- The content of a loader. -/
inductive Store where
  | memory (content : MemoryLoader)
  | folders (content : FolderLoader)
  | table (content : TableLoader)

/-- What a loader with this content answers. -/
def Store.loader (disk : FileTree) : Store → Loader
  | .memory m => m.loader
  | .folders f => f.loader disk
  | .table t => t.loader disk

/-- Where requests are sent. -/
inductive ActiveFactory where
  /-- To the stages of resolution. -/
  | resolving
  /-- To a factory that was set. -/
  | custom (factory : Factory)

namespace ActiveFactory

/-- The name of the stages of resolution as a factory. -/
def resolvingName : String := "resolving"

/-- The name of a factory. -/
def name : ActiveFactory → String
  | .resolving => resolvingName
  | .custom f => f.name

/-- The type tokens of a factory; the stages of resolution have none of their own. -/
def types : ActiveFactory → List String
  | .resolving => []
  | .custom f => f.types

/-- Whether a factory is active. -/
def isActive : ActiveFactory → Bool
  | .resolving => true
  | .custom f => f.isActive

/-- Whether two of them are one and the same factory. -/
def isSame : ActiveFactory → ActiveFactory → Bool
  | .resolving, .resolving => true
  | .custom f, .custom g => f.id == g.id
  | _, _ => false

end ActiveFactory

/-- The state of a process. -/
structure World where
  disk : FileTree
  /-- The content of the loaders, by their numbers. -/
  stores : List Store
  settings : Settings
  plugins : PluginTable Factory
  catalog : Catalog
  /-- The factory that requests are sent to, if one was set. -/
  active : Option ActiveFactory
  /-- The loading context of threads that have entered none. -/
  context : LoadingContext
  /-- The name of the resources that hold manifests. -/
  manifestName : String
  registry : ProviderRegistry
  /-- What each thread has entered. -/
  scopes : ThreadId → ContextScopes

namespace World

/-- The content of a loader; a number that no loader has stands for an empty one. -/
def store (w : World) (loader : Nat) : Store := w.stores.getD loader (.memory .empty)

/-- A loading context with what its loader answers at present. -/
def locator (w : World) (c : LoadingContext) : Locator := ⟨c, (w.store c.loader).loader w.disk⟩

/-- Change the content of a loader that holds its own; others stay as they are. -/
def changeStore (w : World) (loader : Nat) (f : MemoryLoader → MemoryLoader) : World :=
  match w.store loader with
  | .memory m => { w with stores := w.stores.set loader (.memory (f m)) }
  | _ => w

/-- Change the settings that are kept in a table; others stay as they are. -/
def changeSettings (w : World) (f : Entries → Entries) : World :=
  match w.settings with
  | .memory es => { w with settings := .memory (f es) }
  | _ => w

/-- Enter a loading context. -/
def enter (w : World) (me : ThreadId) (c : LoadingContext) : World :=
  { w with scopes := fun t => if t = me then (w.scopes t).enter c else w.scopes t }

/-- Drop a scope. -/
def dropScope (w : World) (me : ThreadId) (scope : Nat) : World :=
  { w with scopes := fun t => if t = me then (w.scopes t).drop scope else w.scopes t }

/-- The context that a thread has entered. -/
def currentContext (w : World) (me : ThreadId) : Option LoadingContext := (w.scopes me).current

/-- The context that a thread has entered, or the one of the process. -/
def findContext (w : World) (me : ThreadId) : LoadingContext := (w.currentContext me).getD w.context

end World

end LogSetup
