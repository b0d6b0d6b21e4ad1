import LogSetup.World.Basic

/-!
# Asking for providers

## Main definitions

- `World.askProviders` : making sure of discovery, and the list of providers
- `World.loadProvider`, `World.resetProviders` : a host's own providers, and starting afresh
- `World.tryLock`, `World.lockInterruptibly`, `World.unlock` : the start-up lock
-/

namespace LogSetup.World

/-- What discovery of providers finds at present. -/
def providerDiscovery (w : World) : Traced (List Provider) :=
  Provider.discover (w.locator w.context) w.manifestName

/-- Go on with a call to the registry until it is over or has to wait. -/
def continueCall (w : World) (me : ThreadId) (stage : ProviderRegistry.Stage) :
    Traced (ProviderRegistry.Stage × World) := do
  let (stage, registry) ← w.registry.run w.providerDiscovery me stage
  pure (stage, { w with registry })

/-- Make sure of discovery, and fetch the list if that is the aim. -/
def askProviders (w : World) (me : ThreadId) (aim : ProviderRegistry.Aim) :
    Traced (ProviderRegistry.Stage × World) :=
  w.continueCall me (.look aim)

/-- Read one manifest and install the provider that it announces. -/
def loadProvider (w : World) (me : ThreadId) (s : Source) (c : LoadingContext) :
    Traced (ProviderRegistry.Stage × World) :=
  w.continueCall me (.read s c)

/-- Drop all providers. -/
def resetProviders (w : World) (me : ThreadId) : Traced (ProviderRegistry.Stage × World) :=
  w.continueCall me .waitToReset

/-- Change the start-up lock. -/
def withLock (w : World) (lock : StartupLock) : World :=
  { w with registry := { w.registry with lock } }

/-- Change the interrupt flags. -/
def withInterrupts (w : World) (interrupts : Interrupts) : World :=
  { w with registry := { w.registry with interrupts } }

/-- Set the flag of a thread. -/
def interrupt (w : World) (t : ThreadId) : World := w.withInterrupts (w.registry.interrupts.raise t)

/-- Whether the flag of a thread is set. -/
def isInterrupted (w : World) (t : ThreadId) : Bool := w.registry.interrupts.isRaised t

/-- Clear the flag of a thread. -/
def clearInterrupt (w : World) (t : ThreadId) : World :=
  w.withInterrupts (w.registry.interrupts.clear t)

/-- Take the start-up lock unless another thread holds it. -/
def tryLock (w : World) (me : ThreadId) : Option World :=
  (w.registry.lock.claim? me).map w.withLock

/-- One attempt to take the start-up lock that an interrupt ends; a flag that ends it is cleared. -/
def lockInterruptibly (w : World) (me : ThreadId) : Attempt × World :=
  let attempt := w.registry.lock.attempt me (w.isInterrupted me)
  match attempt with
  | .interrupted => (attempt, w.clearInterrupt me)
  | .taken lock => (attempt, w.withLock lock)
  | .waiting => (attempt, w)

/-- Release one hold of the start-up lock. -/
def unlock (w : World) : World := w.withLock w.registry.lock.release

/-- Whether somebody holds the start-up lock. -/
def isLocked (w : World) : Bool := w.registry.lock.isLocked

end LogSetup.World
