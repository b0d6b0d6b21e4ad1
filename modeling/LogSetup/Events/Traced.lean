import LogSetup.Events.Event

/-!
# Calls with their events

A call is a value together with the events that led to it. Calls are put together by `bind`, which
concatenates the events; nothing that happened is ever taken back.

## Main definitions

- `Traced` : a value and the events that led to it
- `Traced.report` : a status message
- `Traced.firstSome` : the first answer of a list of calls, of which no later one is made
-/

namespace LogSetup

/-- A value and the events that led to it, in order. -/
structure Traced (α : Type) where
  value : α
  events : List Event

namespace Traced

variable {α β : Type}

/-- Nothing happens. -/
protected def pure (a : α) : Traced α := ⟨a, []⟩

/-- One call after another. -/
protected def bind (x : Traced α) (f : α → Traced β) : Traced β :=
  ⟨(f x.value).value, x.events ++ (f x.value).events⟩

instance : Monad Traced where
  pure := Traced.pure
  bind := Traced.bind

@[simp] theorem value_pure (a : α) : (pure a : Traced α).value = a := rfl

@[simp] theorem events_pure (a : α) : (pure a : Traced α).events = [] := rfl

@[simp] theorem value_bind (x : Traced α) (f : α → Traced β) :
    (x >>= f).value = (f x.value).value := rfl

@[simp] theorem events_bind (x : Traced α) (f : α → Traced β) :
    (x >>= f).events = x.events ++ (f x.value).events := rfl

@[ext] theorem ext {x y : Traced α} (hv : x.value = y.value) (he : x.events = y.events) :
    x = y := by
  cases x; cases y; simp_all

/-- One event. -/
def emit (e : Event) : Traced Unit := ⟨(), [e]⟩

@[simp] theorem events_emit (e : Event) : (emit e).events = [e] := rfl

/-- A status message. -/
def report (level : Level) (text : String) : Traced Unit := emit (.status ⟨level, text⟩)

/-- An answer that counts as a failure when it is an error. -/
def settle {ε : Type} (failure : ε → Failure) (answer : Except ε α) : Traced (Except ε α) :=
  ⟨answer, match answer with
    | .ok _ => []
    | .error e => [.failed (failure e)]⟩

/-- The answer of the first call that has one; the calls after it are not made. -/
def firstSome (call : α → Traced (Option β)) : List α → Traced (Option β)
  | [] => pure none
  | a :: rest => do
    match ← call a with
    | some b => pure (some b)
    | none => firstSome call rest

end Traced

end LogSetup
