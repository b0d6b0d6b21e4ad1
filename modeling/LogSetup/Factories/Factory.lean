import LogSetup.Factories.Configuration
import LogSetup.Loader.Opening

/-!
# Factories

A factory turns sources into configurations. It declares the endings of the locations it
understands, or that it takes any. A factory without an answer declines, and the next one is tried.

Asked for a configuration, a factory may answer out of itself; as a rule it opens the location of
the request, preferring resources of the loading context, and parses what it finds.

## Main definitions

- `Request` : what a factory is asked for
- `Factory` : how a factory answers
- `Factory.openAndParse`, `Factory.configurationFor` : answering a request
- `Descriptor` : a factory in the ranked list
-/

namespace LogSetup

/-- The type token of factories that take any location. -/
def anyType : String := "*"

/-- The category under which factories are registered. -/
def factoryCategory : String := "ConfigurationFactory"

/-- The setting that names a factory to try before all others. -/
def factorySetting : String := "log4j.configurationFactory"

/-- The setting that lists the locations of the configuration. -/
def fileSetting : String := "log4j.configurationFile"

/-- What a factory is asked for. -/
structure Request where
  name : Option String
  location : Option Location
  locator : Locator

/-- An answer of a factory: a configuration, a refusal, or an error. -/
abbrev Answer := Except FactoryError (Option Configuration)

/-- How a factory answers. -/
structure Factory where
  /-- Which factory it is. -/
  id : Nat
  name : String
  /-- The endings of locations that it takes, in the order of probing. -/
  types : List String
  /-- Inactive factories decline everything. -/
  isActive : Bool
  parse : Source → Answer
  /-- The answer that it gives out of itself; when absent, it opens the location. -/
  own : Request → Option Answer

namespace Factory

/-- Hand a source to the factory. -/
def read (f : Factory) (s : Source) : Traced Answer := ⟨f.parse s, [.parsed f.id s]⟩

/-- Open the location of a request and parse what is found. -/
def openAndParse (f : Factory) (r : Request) : Traced Answer :=
  match f.isActive, r.location with
  | true, some location => do
    match ← r.locator.openPreferringContext location with
    | some source => f.read source
    | none => pure (.ok none)
  | _, _ => pure (.ok none)

/-- The answer to a request. -/
def configurationFor (f : Factory) (r : Request) : Traced Answer := do
  Traced.emit (.asked f.id)
  match f.own r with
  | some answer => pure answer
  | none => f.openAndParse r

end Factory

/-- A factory in the ranked list, with the type tokens that it declared when the list was made. -/
structure Descriptor where
  name : String
  rank : Int
  types : List String
  factory : Factory

namespace Descriptor

/-- Put a factory into the list. -/
def ofFactory (name : String) (rank : Int) (f : Factory) : Descriptor := ⟨name, rank, f.types, f⟩

/-- Whether the factory takes any location. -/
def acceptsAll (d : Descriptor) : Bool := d.types.any fun t => t == anyType

/-- Whether the factory is eligible for a location: it takes any, or one of its tokens is the
ending. -/
def eligible (d : Descriptor) (location : String) : Bool :=
  d.types.any fun t => t == anyType || Text.endsWith t location

/-- The tokens that are endings. -/
def endings (d : Descriptor) : List String := d.types.filter fun t => t != anyType

/-- Whether the factory is active. -/
def isActive (d : Descriptor) : Bool := d.factory.isActive

/-- Hand a source to the factory; an inactive one declines unseen. -/
def parse (d : Descriptor) (s : Source) : Traced Answer :=
  if d.isActive then d.factory.read s else pure (.ok none)

/-- Ask the factory for a configuration; an inactive one declines. -/
def configurationFor (d : Descriptor) (r : Request) : Traced Answer :=
  if d.isActive then d.factory.configurationFor r else pure (.ok none)

end Descriptor

/-- The answer of a factory as it is returned to the set-up code, for which an error is a
failure. -/
def Traced.answered (x : Traced Answer) : Traced Answer := do
  let answer ← x
  Traced.settle .factory answer

end LogSetup
