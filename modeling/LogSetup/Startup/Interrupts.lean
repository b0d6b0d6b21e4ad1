/-!
# Interrupts

Every thread has a flag that other threads may set to ask it to give up waiting. A wait that gives
up clears the flag.

## Main definitions

- `Interrupts` : the flags of all threads
- `Interrupts.raise`, `Interrupts.clear` : changes of one flag
-/

namespace LogSetup

/-- Which thread it is. -/
abbrev ThreadId := Nat

/-- The flags of all threads. -/
structure Interrupts where
  isRaised : ThreadId → Bool

namespace Interrupts

/-- No thread is interrupted. -/
def none : Interrupts := ⟨fun _ => false⟩

/-- Set the flag of a thread. -/
def raise (i : Interrupts) (t : ThreadId) : Interrupts :=
  ⟨fun u => if u = t then true else i.isRaised u⟩

/-- Clear the flag of a thread. -/
def clear (i : Interrupts) (t : ThreadId) : Interrupts :=
  ⟨fun u => if u = t then false else i.isRaised u⟩

@[simp] theorem isRaised_raise (i : Interrupts) (t u : ThreadId) :
    (i.raise t).isRaised u = if u = t then true else i.isRaised u := rfl

@[simp] theorem isRaised_clear (i : Interrupts) (t u : ThreadId) :
    (i.clear t).isRaised u = if u = t then false else i.isRaised u := rfl

end Interrupts

end LogSetup
