import LogSetup.Disk.Path
import LogSetup.Settings.VariableName
import LogSetup.Text.Blank

/-!
# Settings

A setting is a text under a name. Values are trimmed, and a blank value counts as none. Settings
come from a table, a file, the environment, or a chain of sources, of which the first that has the
setting counts.

## Main definitions

- `Settings` : where settings come from
- `Settings.get?` : the value of a setting
- `Settings.has` : whether there is one
- `Settings.provider?` : which source of a chain has a setting
-/

namespace LogSetup

/-- Texts by name, each name at most once. -/
abbrev Entries := List (String × String)

namespace Entries

/-- The text under a name. -/
def find (es : Entries) (key : String) : Option String := (es.find? fun e => e.1 == key).map (·.2)

/-- Set or replace the text under a name. -/
def set (key value : String) : Entries → Entries
  | [] => [(key, value)]
  | e :: rest => if e.1 = key then (key, value) :: rest else e :: set key value rest

/-- Remove a name. -/
def erase (es : Entries) (key : String) : Entries := es.filter fun e => e.1 != key

/-- Texts in the order in which they were given; of one name the last counts. -/
def ofList (es : List (String × String)) : Entries := es.foldl (fun acc e => set e.1 e.2 acc) []

end Entries

/-- The environment: names and values of variables. -/
abbrev Environment := List (String × Bytes)

namespace Environment

/-- A variable as the system keeps it: the name, an equals sign, the value. -/
def line (v : String × Bytes) : Bytes := Utf8.encode v.1 ++ 0x3D :: v.2

/-- The bytes after a name and an equals sign. -/
def value? (env : Environment) (name : String) : Option Bytes :=
  if name = "" then none
  else
    let front := Utf8.encode name ++ [0x3D]
    (env.find? fun v => front.isPrefixOf (line v)).map fun v => (line v).drop front.length

/-- The value of a variable that holds text and is not blank. -/
def text? (env : Environment) (name : String) : Option String :=
  ((env.value? name).bind Utf8.decode?).bind Text.nonBlank?

/-- The value of a setting: of the variable of that very name, or else of the conventional one. -/
def setting? (env : Environment) (key : String) : Option String :=
  match env.text? key with
  | some v => some v
  | none => if variableName key = key then none else env.text? (variableName key)

end Environment

/-- Where settings come from. -/
inductive Settings where
  | memory (entries : Entries)
  | file (path : FilePath) (entries : Entries)
  | environment (bindings : Environment)
  | chain (sources : List Settings)

namespace Settings

/-- The word for a kind of source. -/
def kind : Settings → String
  | .memory _ => "memory"
  | .file _ _ => "file"
  | .environment _ => "env"
  | .chain _ => "chain"

mutual

/-- The value of a setting. -/
def get? (key : String) : Settings → Option String
  | .memory es => (es.find key).bind Text.nonBlank?
  | .file _ es => (es.find key).bind Text.nonBlank?
  | .environment env => env.setting? key
  | .chain sources => first? key sources

/-- The value of a setting in the first source that has it. -/
def first? (key : String) : List Settings → Option String
  | [] => none
  | s :: rest =>
    match get? key s with
    | some v => some v
    | none => first? key rest

end

/-- Whether a setting has a value. -/
def has (s : Settings) (key : String) : Bool := (s.get? key).isSome

/-- The sources of a chain; any other source is none. -/
def sources : Settings → List Settings
  | .chain ss => ss
  | _ => []

/-- The first source of a chain that has a setting. -/
def provider? (s : Settings) (key : String) : Option Settings := s.sources.find? fun t => t.has key

end Settings

end LogSetup
