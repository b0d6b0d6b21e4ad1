import LogSetup.Loader.Basic

/-!
# Entered loading contexts

A thread enters a loading context and gets a scope for it; dropping the scope leaves a context. The
contexts that are entered form a stack, and leaving always takes the one on top, whichever scope is
dropped. So scopes are meant to be dropped in the reverse order of their making.

## Main definitions

- `ContextScopes` : what a thread has entered
- `ContextScopes.enter`, `ContextScopes.drop` : making and dropping a scope
- `ContextScopes.current` : the context in effect
-/

namespace LogSetup

/-- What a thread has entered. -/
structure ContextScopes where
  /-- The contexts, the latest first. -/
  stack : List LoadingContext
  /-- How many scopes were made. -/
  made : Nat
  /-- The scopes that are not dropped yet, the latest first. -/
  live : List Nat
  deriving DecidableEq, Repr

namespace ContextScopes

/-- Nothing is entered. -/
def none : ContextScopes := ⟨[], 0, []⟩

/-- Enter a context; the scope's number is the count of those before it. -/
def enter (s : ContextScopes) (c : LoadingContext) : ContextScopes :=
  ⟨c :: s.stack, s.made + 1, s.made :: s.live⟩

/-- Drop a scope that is not dropped yet. -/
def drop (s : ContextScopes) (scope : Nat) : ContextScopes :=
  if scope ∈ s.live then { s with stack := s.stack.tail, live := s.live.erase scope } else s

/-- The context in effect. -/
def current (s : ContextScopes) : Option LoadingContext := s.stack.head?

end ContextScopes

end LogSetup
