import LogSetup.Startup.Interrupts

/-!
# The start-up lock

The lock is held by one thread at a time, which may take it again and must release it as often. A
thread that waits for it may be interrupted: it then gives up and the lock is as it was. An
interrupt that is pending counts even when the lock is free.

## Main definitions

- `StartupLock` : who holds the lock, and how often
- `StartupLock.claim?`, `StartupLock.release` : taking and releasing it
- `StartupLock.attempt` : one attempt of a wait that can be interrupted
- `GuardedLock` : a lock with its holds, each of which is released on its own
-/

namespace LogSetup

/-- Who holds the lock, and how often. -/
structure StartupLock where
  owner : Option ThreadId
  holds : Nat
  deriving DecidableEq, Repr

/-- What a wait tells that was given up. -/
def interruptedMessage : String := "Interrupted while waiting for the startup lock"

/-- How an attempt to take the lock ends. -/
inductive Attempt where
  | interrupted
  | taken (lock : StartupLock)
  | waiting
  deriving DecidableEq, Repr

namespace StartupLock

/-- Held by nobody. -/
def free : StartupLock := ⟨none, 0⟩

/-- Take the lock for a thread, unless another one holds it. -/
def claim? (l : StartupLock) (me : ThreadId) : Option StartupLock :=
  match l.owner with
  | none => some ⟨some me, 1⟩
  | some t => if t = me then some ⟨some me, l.holds + 1⟩ else none

/-- Give up one hold; with the last one the lock is free. -/
def release (l : StartupLock) : StartupLock :=
  if l.holds - 1 = 0 then ⟨none, 0⟩ else { l with holds := l.holds - 1 }

/-- Whether somebody holds the lock. -/
def isLocked (l : StartupLock) : Bool := l.owner.isSome

/-- One attempt to take the lock by a thread with this flag. -/
def attempt (l : StartupLock) (me : ThreadId) (raised : Bool) : Attempt :=
  if raised then .interrupted
  else
    match l.claim? me with
    | some l => .taken l
    | none => .waiting

end StartupLock

/-- A lock with its live holds: the threads that took them, each under a number of its own. -/
structure GuardedLock where
  lock : StartupLock
  guards : List (Nat × ThreadId)
  deriving DecidableEq, Repr

namespace GuardedLock

/-- A free lock. -/
def free : GuardedLock := ⟨.free, []⟩

/-- Take a hold and keep it under a number. -/
def take? (g : GuardedLock) (number : Nat) (me : ThreadId) : Option GuardedLock :=
  (g.lock.claim? me).map fun l => ⟨l, (number, me) :: g.guards⟩

/-- Release the hold under a number, if it is live. -/
def drop (g : GuardedLock) (number : Nat) : GuardedLock :=
  if g.guards.any fun h => h.1 == number then
    ⟨g.lock.release, g.guards.filter fun h => h.1 != number⟩
  else g

end GuardedLock

end LogSetup
