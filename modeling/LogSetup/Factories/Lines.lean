import LogSetup.Factories.Factory

/-!
# A format of lines

Each line of the source is a key and a value around the first equals sign; blank lines do not
count. The entry `name` names the configuration.

## Main definitions

- `Lines.read` : the entries of a source
- `Lines.factory` : the factory of the format
- `Factory.failing` : a factory that fails on every source
-/

namespace LogSetup

namespace Lines

/-- The key and the value in a line. -/
def readLine? (line : String) : Option (String × String) :=
  (Text.cut? '=' line.toList).map fun (key, value) =>
    (String.ofList (Text.trimChars key), String.ofList (Text.trimChars value))

/-- The entries of lines, or the first line without an equals sign. -/
def readLines : List String → Except String (List (String × String))
  | [] => .ok []
  | line :: rest =>
    match readLine? line with
    | none => .error ("bad line: " ++ line)
    | some entry =>
      match readLines rest with
      | .ok entries => .ok (entry :: entries)
      | .error e => .error e

/-- The entries of a source, or what is wrong with it. -/
def read (data : Bytes) : Except String (List (String × String)) :=
  match Utf8.decode? data with
  | none => .error "not utf-8"
  | some text => readLines (((Text.lines text).map Text.trim).filter fun line => line != "")

/-- The name that entries give to their configuration. -/
def nameOf (entries : List (String × String)) : String :=
  ((entries.find? fun e => e.1 == "name").map (·.2)).getD "unnamed"

/-- What becomes of a source in the hands of the factory of this name. -/
def parse (name : String) (s : Source) : Answer :=
  match read s.data with
  | .ok entries => .ok (some (.document (nameOf entries) s.location (.entries entries)))
  | .error e => .error (.parse name (s.location.getD "") e)

/-- The factory of the format. -/
def factory (id : Nat) (name : String) (types : List String) : Factory :=
  { id, name, types, isActive := true, parse := parse name, own := fun _ => none }

end Lines

/-- A factory that fails on every source with the same error. -/
def Factory.failing (id : Nat) (name : String) (types : List String) (error : FactoryError) :
    Factory :=
  { id, name, types, isActive := true, parse := fun _ => .error error, own := fun _ => none }

end LogSetup
