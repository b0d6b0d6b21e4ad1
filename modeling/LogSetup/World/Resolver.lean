import LogSetup.World.Basic

/-!
# Asking for a configuration

Requests are sent to the stages of resolution unless another factory was set. A location that is
none is reported and ignored, and an empty name counts as none.

## Main definitions

- `World.factories`, `World.resetCatalog` : the catalog
- `World.getConfiguration`, `World.getConfigurationIn` : asking for a configuration
- `World.activeFactory`, `World.removeActive` : where requests are sent
- `World.parse`, `World.configurationFor` : asking a factory directly
-/

namespace LogSetup.World

/-- What discovery of factories makes at present. -/
def discovery (w : World) : Traced (List Descriptor) := discoverFactories w.plugins w.settings

/-- The catalog's list. -/
def factories (w : World) : Traced (List Descriptor × World) := do
  let (list, catalog) ← w.catalog.factories w.discovery
  pure (list, { w with catalog })

/-- Drop the catalog's list. -/
def resetCatalog (w : World) : World := { w with catalog := w.catalog.reset }

/-- Send a request through the stages of resolution. -/
def resolve (w : World) (r : Request) : Traced (Except ResolveError Configuration × World) := do
  let (list, w) ← w.factories
  let answer ← Resolution.resolve list w.settings r
  pure (answer, w)

/-- The stages of resolution as a factory: an error of theirs is reported and counts as a
refusal. -/
def resolveAsFactory (w : World) (r : Request) : Traced (Answer × World) := do
  let (answer, w) ← w.resolve r
  match answer with
  | .ok c => pure (.ok (some c), w)
  | .error (.factory e) => pure (.error e, w)
  | .error e =>
    Traced.report .error e.message
    pure (.ok none, w)

/-- Ask a factory for a configuration. -/
def configurationFor (w : World) (f : ActiveFactory) (r : Request) : Traced (Answer × World) :=
  match f with
  | .resolving => w.resolveAsFactory r
  | .custom f => do
    let answer ← f.configurationFor r
    pure (answer, w)

/-- Hand a source to a factory. -/
def parse (w : World) (f : ActiveFactory) (s : Source) : Traced (Answer × World) :=
  match f with
  | .resolving => do
    let (list, w) ← w.factories
    let c ← Resolution.dispatch list s
    pure (.ok c, w)
  | .custom f => do
    let answer ← f.read s
    pure (answer, w)

/-- Open the location of a request and hand what is found to a factory. -/
def openAndParse (w : World) (f : ActiveFactory) (r : Request) : Traced (Answer × World) :=
  match f.isActive, r.location with
  | true, some location => do
    match ← r.locator.openPreferringContext location with
    | some source => w.parse f source
    | none => pure (.ok none, w)
  | _, _ => pure (.ok none, w)

/-- The request for a name and location in a loading context; an empty name counts as none. -/
def request (w : World) (name : Option String) (location : Option Location) (c : LoadingContext) :
    Request :=
  ⟨name.filter fun n => n != "", location, w.locator c⟩

/-- Ask for a configuration in a given loading context. -/
def getConfigurationIn (w : World) (name : Option String) (location : Option Location)
    (c : LoadingContext) : Traced (Except ResolveError Configuration × World) :=
  let r := w.request name location c
  match w.active with
  | none => w.resolve r
  | some f => do
    let (answer, w) ← w.configurationFor f r
    match answer with
    | .ok (some c) => pure (.ok c, w)
    | .ok none => pure (.error (.declined f.name), w)
    | .error e => pure (.error (.factory e), w)

/-- The location that a text stands for; one that is none is reported and ignored. -/
def readLocation : Option String → Traced (Option Location)
  | none => pure none
  | some raw => do
    match ← Traced.settle .load (Location.parse raw) with
    | .ok location => pure (some location)
    | .error e =>
      Traced.report .error ("Ignoring configuration location: " ++ e.message)
      pure none

/-- Ask for a configuration in the loading context of the thread. -/
def getConfiguration (w : World) (me : ThreadId) (name : Option String) (raw : Option String) :
    Traced (Except ResolveError Configuration × World) := do
  let location ← readLocation raw
  w.getConfigurationIn name location (w.findContext me)

/-- The factory that requests are sent to at present. -/
def currentActive (w : World) : ActiveFactory := w.active.getD .resolving

/-- The factory that requests are sent to, after making sure of the catalog. -/
def activeFactory (w : World) : Traced (ActiveFactory × World) := do
  let (list, w) ← w.factories
  Traced.report .debug
    ("Using configuration factory " ++ w.currentActive.name ++ " over " ++
      Text.decimal list.length ++ " discovered")
  pure (w.currentActive, w)

/-- Send requests to a factory from now on. -/
def setActive (w : World) (f : ActiveFactory) : World := { w with active := some f }

/-- Send requests through the stages of resolution from now on. -/
def resetActive (w : World) : World := { w with active := none }

/-- Whether a factory was set and is this one. -/
def isSetTo (w : World) (f : ActiveFactory) : Bool := w.active.any fun g => g.isSame f

/-- Send requests no longer to this factory, if it is the one that was set. -/
def removeActive (w : World) (f : ActiveFactory) : World := if w.isSetTo f then w.resetActive else w

end LogSetup.World
