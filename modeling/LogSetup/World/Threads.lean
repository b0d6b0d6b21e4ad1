import LogSetup.World.Providers
import LogSetup.World.Resolver

/-!
# Calls on other threads

A thread that needs the start-up lock waits while the host holds it. Meanwhile the host may
interrupt the thread, and it may release the lock. A thread that is told both gives up.

## Main definitions

- `Meanwhile` : what the host does while a thread waits
- `World.askOnThread`, `World.lockOnThread`, `World.tryLockOnThread` : calls that may wait
-/

namespace LogSetup

/-- What the host does while a thread waits, or after its call when it does not wait. -/
structure Meanwhile where
  /-- Whether the host interrupts a thread that waits. -/
  interrupts : Bool
  /-- How many holds of the lock the host releases. -/
  releases : Nat
  deriving DecidableEq, Repr

namespace World

/-- Release some holds of the start-up lock. -/
def release (w : World) : Nat → World
  | 0 => w
  | n + 1 => w.unlock.release n

/-- What the host does while thread `t` waits. -/
def meanwhile (w : World) (t : ThreadId) (m : Meanwhile) : World :=
  (if m.interrupts then w.interrupt t else w).release m.releases

/-- The list that a finished call fetched. -/
def fetched : ProviderRegistry.Stage → List Provider
  | .fetched (some ps) => ps
  | _ => []

/-- A thread asks for the providers. -/
def askOnThread (w : World) (t : ThreadId) (m : Meanwhile) : Traced (List Provider × World) := do
  let (stage, w) ← w.askProviders t .list
  if stage.isDone then pure (fetched stage, w.release m.releases)
  else do
    let (stage, w) ← (w.meanwhile t m).continueCall t stage
    pure (fetched stage, w)

/-- A thread takes the lock, unless it is interrupted, and releases it at once. Tells whether it
took the lock. -/
def lockOnThread (w : World) (t : ThreadId) (m : Meanwhile) : Bool × World :=
  match w.lockInterruptibly t with
  | (.taken _, w) => (true, w.unlock.release m.releases)
  | (.interrupted, w) => (false, w.release m.releases)
  | (.waiting, w) =>
    match (w.meanwhile t m).lockInterruptibly t with
    | (.taken _, w) => (true, w.unlock)
    | (_, w) => (false, w)

/-- A thread takes the lock if it need not wait, and releases it at once. -/
def tryLockOnThread (w : World) (t : ThreadId) (m : Meanwhile) : Bool × World :=
  match w.tryLock t with
  | some taken => (true, taken.unlock.release m.releases)
  | none => (false, w.release m.releases)

end World

end LogSetup
