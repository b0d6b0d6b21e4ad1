import LogSetup.Providers.Provider
import LogSetup.Startup.Lock

/-!
# The provider registry

Providers are discovered once, by the first thread that asks, under the start-up lock. A host that
holds the lock can install providers of its own before that; threads that ask meanwhile wait, and
can be interrupted while they do. Installing takes no lock: whoever puts providers behind the list
makes a longer list and puts it in the place of the old one, unless that was replaced meanwhile.

Threads work on the registry in small steps between which other threads may take theirs. `step?`
is one step of one thread; a call by a thread that is alone, or whose neighbours rest, is `run`.

## Main definitions

- `ProviderRegistry` : lock, flags and list
- `ProviderRegistry.Stage` : how far a call has come
- `ProviderRegistry.step?` : the next step of a call
- `ProviderRegistry.run` : the steps of a call until it is done or has to wait
- `ProviderRegistry.ask`, `load`, `reset` : whole calls
-/

namespace LogSetup

/-- What the threads of a process share about providers. -/
structure ProviderRegistry where
  lock : StartupLock
  /-- The interrupt flags of the threads. -/
  interrupts : Interrupts
  /-- Whether discovery is done. -/
  isInitialized : Bool
  providers : List Provider
  /-- How often the list was replaced, which tells it from an earlier list with the same content. -/
  edition : Nat

namespace ProviderRegistry

/-- Nothing has happened yet. -/
def initial : ProviderRegistry := ⟨.free, .none, false, [], 0⟩

/-- Put another list in the place of the list. -/
def put (r : ProviderRegistry) (providers : List Provider) : ProviderRegistry :=
  { r with providers, edition := r.edition + 1 }

/-- What a thread that makes sure of discovery wants in the end. -/
inductive Aim where
  /-- Nothing more. -/
  | ensure
  /-- The list of providers. -/
  | list
  deriving DecidableEq, Repr

/-- What a thread puts behind the list. -/
inductive Addition where
  /-- What discovery found. -/
  | found (aim : Aim) (providers : List Provider)
  /-- A provider of the host. -/
  | installed (provider : Provider)
  deriving DecidableEq, Repr

/-- The providers that are put behind the list. -/
def Addition.providers : Addition → List Provider
  | .found _ providers => providers
  | .installed provider => [provider]

/-- How far a call has come: what its next step is. -/
inductive Stage where
  /-- Look whether discovery is done. -/
  | look (aim : Aim)
  /-- Try to take the lock. -/
  | wait (aim : Aim)
  /-- Report the interrupt that ended the wait, and set the flag again. -/
  | giveUp (aim : Aim)
  /-- Look again, as the holder of the lock. -/
  | lookAgain (aim : Aim)
  /-- Find and read the manifests. -/
  | discover (aim : Aim)
  /-- Fetch the list that is to grow. -/
  | extend (new : Addition)
  /-- Put the longer list in the place of the one that was fetched. When that is no longer there,
  try again with the present one. -/
  | swap (new : Addition) (seen : List Provider) (edition : Nat)
  /-- Tell that discovery is done. -/
  | publish (aim : Aim)
  /-- Release the lock. -/
  | release (aim : Aim)
  /-- Fetch the list, if it is wanted. -/
  | fetch (aim : Aim)
  /-- Read one manifest on behalf of the host. -/
  | read (source : Source) (context : LoadingContext)
  /-- Take the lock to start afresh. -/
  | waitToReset
  /-- Drop all providers. -/
  | empty
  /-- Tell that discovery is not done. -/
  | retract
  /-- Release the lock after starting afresh. -/
  | releaseReset
  /-- The list that was fetched, if one was wanted. -/
  | fetched (providers : Option (List Provider))
  /-- The provider that was installed, if there was one. -/
  | loaded (provider : Option Provider)
  /-- The registry starts afresh. -/
  | cleared
  deriving DecidableEq, Repr

/-- The call is over. -/
def Stage.isDone : Stage → Bool
  | .fetched _ | .loaded _ | .cleared => true
  | _ => false

/-- What a call does after its addition is in the list. -/
def Addition.next : Addition → Stage
  | .found aim _ => .publish aim
  | .installed provider => .loaded (some provider)

/-- The text reported by a thread that gives up. -/
def givenUpMessage : String :=
  "Interrupted before providers could be loaded: " ++ interruptedMessage

/-- The next step of a call by thread `me`, where `discovery` is what discovery finds at present.
There is none when the call is over or has to wait. -/
def step? (discovery : Traced (List Provider)) (me : ThreadId) (stage : Stage)
    (r : ProviderRegistry) : Option (Traced (Stage × ProviderRegistry)) :=
  match stage with
  | .look aim => some (pure (if r.isInitialized then .fetch aim else .wait aim, r))
  | .wait aim =>
    match r.lock.attempt me (r.interrupts.isRaised me) with
    | .interrupted => some (pure (.giveUp aim, { r with interrupts := r.interrupts.clear me }))
    | .taken lock => some (pure (.lookAgain aim, { r with lock }))
    | .waiting => none
  | .giveUp aim => some do
    Traced.report .fatal givenUpMessage
    pure (.fetch aim, { r with interrupts := r.interrupts.raise me })
  | .lookAgain aim => some (pure (if r.isInitialized then .release aim else .discover aim, r))
  | .discover aim => some do
    let found ← discovery
    pure (.extend (.found aim found), r)
  | .extend new => some (pure (.swap new r.providers r.edition, r))
  | .swap new seen edition =>
    some (pure
      (if r.edition = edition then (new.next, r.put (seen ++ new.providers))
      else (.swap new r.providers r.edition, r)))
  | .publish aim => some (pure (.release aim, { r with isInitialized := true }))
  | .release aim => some (pure (.fetch aim, { r with lock := r.lock.release }))
  | .fetch .ensure => some (pure (.fetched none, r))
  | .fetch .list => some (pure (.fetched (some r.providers), r))
  | .read source context => some do
    match ← Provider.announce source context with
    | some p => pure (.extend (.installed p), r)
    | none => pure (.loaded none, r)
  | .waitToReset =>
    match r.lock.claim? me with
    | some lock => some (pure (.empty, { r with lock }))
    | none => none
  | .empty => some (pure (.retract, r.put []))
  | .retract => some (pure (.releaseReset, { r with isInitialized := false }))
  | .releaseReset => some (pure (.cleared, { r with lock := r.lock.release }))
  | .fetched _ => none
  | .loaded _ => none
  | .cleared => none

/-- At most `steps` steps of a call, until it is over or has to wait. -/
def runFor (discovery : Traced (List Provider)) (me : ThreadId) :
    Nat → Stage → ProviderRegistry → Traced (Stage × ProviderRegistry)
  | 0, stage, r => pure (stage, r)
  | steps + 1, stage, r =>
    match step? discovery me stage r with
    | none => pure (stage, r)
    | some next => do
      let (stage, r) ← next
      runFor discovery me steps stage r

/-- The steps of a call until it is over or has to wait; no call takes more than nine. -/
def run (discovery : Traced (List Provider)) (me : ThreadId) (stage : Stage)
    (r : ProviderRegistry) : Traced (Stage × ProviderRegistry) :=
  runFor discovery me 9 stage r

/-- Make sure of discovery, and fetch the list if that is the aim. -/
def ask (discovery : Traced (List Provider)) (me : ThreadId) (aim : Aim) (r : ProviderRegistry) :
    Traced (Stage × ProviderRegistry) :=
  run discovery me (.look aim) r

/-- Read one manifest and install the provider that it announces. -/
def load (source : Source) (context : LoadingContext) (me : ThreadId) (r : ProviderRegistry) :
    Traced (Stage × ProviderRegistry) :=
  run (pure []) me (.read source context) r

/-- Drop all providers, so that they are discovered afresh. -/
def reset (me : ThreadId) (r : ProviderRegistry) : Traced (Stage × ProviderRegistry) :=
  run (pure []) me .waitToReset r

end ProviderRegistry

end LogSetup
