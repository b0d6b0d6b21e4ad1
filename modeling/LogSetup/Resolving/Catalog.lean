import LogSetup.Factories.Factory
import LogSetup.Plugins.Table
import LogSetup.Settings.Basic
import LogSetup.Startup.Interrupts

/-!
# The catalog of factories

The factories that locations are dispatched to are discovered on first use: the one that a setting
names, then all candidates of the category by ascending rank, those of one rank in the order of
their registration. A candidate that cannot be built is reported and left out. The list then stays
as it is until the catalog is reset.

Threads work on the catalog in small steps between which other threads may take theirs. `step?` is
one step of one thread, and `run` a call whose neighbours rest.

## Main definitions

- `discoverFactories` : the list that discovery makes, of `namedFactory` and `rankFactories`
- `Catalog` : the list, once it is made
- `Catalog.Stage`, `Catalog.step?` : the steps of a call
- `Catalog.factories`, `Catalog.reset` : whole calls
-/

namespace LogSetup

/-! ### Discovery -/

/-- Build the plug-in of a candidate for the list. -/
def buildDescriptor (c : Candidate Factory) : Traced (List Descriptor) := do
  match ← c.instantiate with
  | .ok f => pure [Descriptor.ofFactory c.name c.rank f]
  | .error e =>
    Traced.report .error ("Unable to create instance of " ++ c.name ++ ": " ++ e.message)
    pure []

/-- Build the plug-ins of candidates in their order. -/
def buildAll : List (Candidate Factory) → Traced (List Descriptor)
  | [] => pure []
  | c :: rest => do
    let front ← buildDescriptor c
    let back ← buildAll rest
    pure (front ++ back)

/-- Put a candidate before the first one whose rank is not lower. -/
def insertByRank {α : Type} (c : Candidate α) : List (Candidate α) → List (Candidate α)
  | [] => [c]
  | d :: rest => if c.rank ≤ d.rank then c :: d :: rest else d :: insertByRank c rest

/-- Candidates by ascending rank; those of one rank keep their order. -/
def byRank {α : Type} : List (Candidate α) → List (Candidate α)
  | [] => []
  | c :: rest => insertByRank c (byRank rest)

/-- The factory that is registered under a name, if one is named. -/
def factoryNamed (plugins : PluginTable Factory) : Option String → Traced (List Descriptor)
  | none => pure []
  | some name => do
    match ← plugins.lookup factoryCategory name with
    | .ok c => buildDescriptor c
    | .error e =>
      Traced.report .error ("Unable to load factory " ++ name ++ ": " ++ e.message)
      pure []

/-- The factory that the settings name, if they name one. -/
def namedFactory (plugins : PluginTable Factory) (settings : Settings) : Traced (List Descriptor) :=
  factoryNamed plugins (settings.get? factorySetting)

/-- Put the factories of all candidates behind the named one, and tell the list. -/
def rankFactories (plugins : PluginTable Factory) (named : List Descriptor) :
    Traced (List Descriptor) := do
  let ranked ← buildAll (byRank (plugins.candidates factoryCategory))
  let list := named ++ ranked
  Traced.report .debug
    ("Configuration factories: [" ++ Text.joinTexts ", " (list.map Descriptor.name) ++ "]")
  pure list

/-- Make the list of factories. -/
def discoverFactories (plugins : PluginTable Factory) (settings : Settings) :
    Traced (List Descriptor) := do
  let named ← namedFactory plugins settings
  rankFactories plugins named

/-! ### The catalog -/

/-- The list of factories, once it is made. -/
structure Catalog where
  /-- The thread that makes or drops the list. -/
  holder : Option ThreadId
  isInitialized : Bool
  list : List Descriptor

namespace Catalog

/-- The list is not made yet. -/
def initial : Catalog := ⟨none, false, []⟩

/-- How far a call has come: what its next step is. -/
inductive Stage where
  /-- Look whether the list is made. -/
  | look
  /-- Take the lock. -/
  | wait
  /-- Look again, as the holder of the lock. -/
  | lookAgain
  /-- Begin to make the list: read which factory the settings name. -/
  | discover
  /-- Build the named factory. -/
  | build (name : Option String)
  /-- Build all candidates, by their ranks, behind the named factory. -/
  | rank (named : List Descriptor)
  /-- Put the list where others find it. -/
  | store (list : List Descriptor)
  /-- Tell that the list is made. -/
  | publish
  /-- Release the lock. -/
  | release
  /-- Fetch the list. -/
  | fetch
  /-- Take the lock to drop the list. -/
  | waitToReset
  /-- Drop the list. -/
  | empty
  /-- Tell that the list is not made. -/
  | retract
  /-- Release the lock after dropping the list. -/
  | releaseReset
  /-- The list that was fetched. -/
  | fetched (list : List Descriptor)
  /-- The list is dropped. -/
  | cleared

/-- The next step of a call by thread `me`, with the plug-ins and settings that are there at
present. There is none when the call is over or has to wait. -/
def step? (plugins : PluginTable Factory) (settings : Settings) (me : ThreadId) (stage : Stage)
    (c : Catalog) : Option (Traced (Stage × Catalog)) :=
  match stage with
  | .look => some (pure (if c.isInitialized then .fetch else .wait, c))
  | .wait =>
    if c.holder.isNone then some (pure (.lookAgain, { c with holder := some me })) else none
  | .lookAgain => some (pure (if c.isInitialized then .release else .discover, c))
  | .discover => some (pure (.build (settings.get? factorySetting), c))
  | .build name => some do
    let named ← factoryNamed plugins name
    pure (.rank named, c)
  | .rank named => some do
    let list ← rankFactories plugins named
    pure (.store list, c)
  | .store list => some (pure (.publish, { c with list }))
  | .publish => some (pure (.release, { c with isInitialized := true }))
  | .release => some (pure (.fetch, { c with holder := none }))
  | .fetch => some (pure (.fetched c.list, c))
  | .waitToReset =>
    if c.holder.isNone then some (pure (.empty, { c with holder := some me })) else none
  | .empty => some (pure (.retract, { c with list := [] }))
  | .retract => some (pure (.releaseReset, { c with isInitialized := false }))
  | .releaseReset => some (pure (.cleared, { c with holder := none }))
  | .fetched _ => none
  | .cleared => none

/-- At most `steps` steps of a call, until it is over or has to wait. -/
def runFor (plugins : PluginTable Factory) (settings : Settings) (me : ThreadId) :
    Nat → Stage → Catalog → Traced (Stage × Catalog)
  | 0, stage, c => pure (stage, c)
  | steps + 1, stage, c =>
    match step? plugins settings me stage c with
    | none => pure (stage, c)
    | some next => do
      let (stage, c) ← next
      runFor plugins settings me steps stage c

/-- The steps of a call until it is over or has to wait; no call takes more than ten. -/
def run (plugins : PluginTable Factory) (settings : Settings) (me : ThreadId) (stage : Stage)
    (c : Catalog) : Traced (Stage × Catalog) :=
  runFor plugins settings me 10 stage c

/-- The list, which is made if it is not there yet. -/
def factories (discovery : Traced (List Descriptor)) (c : Catalog) :
    Traced (List Descriptor × Catalog) :=
  if c.isInitialized then pure (c.list, c)
  else do
    let list ← discovery
    pure (list, { c with isInitialized := true, list })

/-- Drop the list, so that it is made afresh. -/
def reset (c : Catalog) : Catalog := { c with isInitialized := false, list := [] }

/-- A thread whose neighbours rest gets the list. -/
theorem run_look (plugins : PluginTable Factory) (settings : Settings) (me : ThreadId)
    (c : Catalog) (free : c.holder = none) :
    run plugins settings me .look c =
      (do let (list, c) ← factories (discoverFactories plugins settings) c
          pure (.fetched list, c)) := by
  obtain ⟨holder, initialized, list⟩ := c
  subst free
  cases initialized with
  | true => rfl
  | false =>
    ext1
    · rfl
    · -- the steps of discovery bring all the events
      change [] ++ ([] ++ ([] ++ ([] ++ ((namedFactory plugins settings).events ++ [] ++
        ((rankFactories plugins (namedFactory plugins settings).value).events ++ [] ++ []))))) =
          (namedFactory plugins settings).events ++
            (rankFactories plugins (namedFactory plugins settings).value).events ++ [] ++ []
      simp only [List.nil_append, List.append_nil]

end Catalog

end LogSetup
