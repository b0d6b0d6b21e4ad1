import LogSetup.Events.Traced

/-!
# The table of plug-ins

Candidates are registered under a category and a name. Within a category they keep the order of
their first registration; registering a name again replaces the candidate where it stands.

## Main definitions

- `Candidate` : a named and ranked way to build a plug-in
- `PluginTable` : the candidates of every category
- `PluginTable.register`, `unregister`, `clear` : changes
- `PluginTable.candidates`, `contains`, `lookup` : questions
-/

namespace LogSetup

/-- A named and ranked way to build a plug-in. -/
structure Candidate (α : Type) where
  name : String
  /-- Lower ranks come first. -/
  rank : Int
  /-- Which candidate it is, across registrations under several names. -/
  id : Nat
  /-- What building it yields. -/
  outcome : Except PluginError α

namespace Candidate

variable {α : Type}

/-- Build the plug-in. -/
def instantiate (c : Candidate α) : Traced (Except PluginError α) := do
  Traced.emit (.built c.id)
  Traced.settle .plugin c.outcome

end Candidate

/-- The candidates of every category. A category that is not listed has none. -/
structure PluginTable (α : Type) where
  categories : List (String × List (Candidate α))

namespace PluginTable

variable {α : Type}

/-- No candidates. -/
def empty : PluginTable α := ⟨[]⟩

/-- The candidates of a category in the order of their registration. -/
def candidates (t : PluginTable α) (category : String) : List (Candidate α) :=
  ((t.categories.find? fun c => c.1 == category).map (·.2)).getD []

/-- Replace the candidate of the same name where it stands, or put the new one at the end. -/
def place (c : Candidate α) : List (Candidate α) → List (Candidate α)
  | [] => [c]
  | d :: rest => if d.name = c.name then c :: rest else d :: place c rest

/-- Change the candidates of one category. -/
def change (category : String) (f : List (Candidate α) → List (Candidate α)) :
    List (String × List (Candidate α)) → List (String × List (Candidate α))
  | [] => [(category, f [])]
  | e :: rest => if e.1 = category then (e.1, f e.2) :: rest else e :: change category f rest

/-- Register a candidate. -/
def register (t : PluginTable α) (category : String) (c : Candidate α) : PluginTable α :=
  ⟨change category (place c) t.categories⟩

/-- Whether a name is registered. -/
def contains (t : PluginTable α) (category name : String) : Bool :=
  (t.candidates category).any fun c => c.name == name

/-- Remove the candidates of a name from a category. -/
def without (t : PluginTable α) (category name : String) : PluginTable α :=
  ⟨t.categories.map fun e =>
    if e.1 = category then (e.1, e.2.filter fun c => c.name != name) else e⟩

/-- Remove a name, and tell whether the category has become shorter. -/
def unregister (t : PluginTable α) (category name : String) : PluginTable α × Bool :=
  (t.without category name,
    (t.candidates category).length != ((t.without category name).candidates category).length)

/-- Remove everything. -/
def clear (_ : PluginTable α) : PluginTable α := empty

/-- The candidate of a name. -/
def find (t : PluginTable α) (category name : String) : Except PluginError (Candidate α) :=
  match (t.candidates category).find? fun c => c.name == name with
  | some c => .ok c
  | none => .error (.unknown category name)

/-- The candidate of a name, where a missing one is a failure. -/
def lookup (t : PluginTable α) (category name : String) :
    Traced (Except PluginError (Candidate α)) :=
  Traced.settle .plugin (t.find category name)

end PluginTable

end LogSetup
