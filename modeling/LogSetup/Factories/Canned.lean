import LogSetup.Factories.Factory

/-!
# Factories with a fixed verdict

A canned factory takes every source, declines every source, or fails on every source. Its
configuration is the text of the source. It can also be given a content of its own, with which it
answers requests without a location.

## Main definitions

- `Verdict` : what a canned factory does with a source
- `Canned` : a canned factory
- `Canned.factory` : how it answers
-/

namespace LogSetup

/-- What a canned factory does with every source. -/
inductive Verdict where
  | accept
  | decline
  | fail (message : String)
  deriving DecidableEq, Repr

/-- A factory with a fixed verdict. -/
structure Canned where
  id : Nat
  name : String
  types : List String
  verdict : Verdict
  isActive : Bool
  /-- The content with which it answers requests without a location. -/
  direct : Option String
  deriving Repr

namespace Canned

/-- What becomes of a source. -/
def parse (c : Canned) (s : Source) : Answer :=
  match c.verdict with
  | .accept => .ok (some (.document c.name s.location (.text (Utf8.decodeLossy s.data))))
  | .decline => .ok none
  | .fail message => .error (.parse c.name s.origin.display message)

/-- The answer to a request without a location. -/
def own (c : Canned) (r : Request) : Option Answer :=
  match r.location, c.isActive, c.direct with
  | none, true, some content => some (.ok (some (.document c.name none (.text content))))
  | _, _, _ => none

/-- How a canned factory answers. -/
def factory (c : Canned) : Factory :=
  { id := c.id, name := c.name, types := c.types, isActive := c.isActive, parse := c.parse
    own := c.own }

end Canned

end LogSetup
