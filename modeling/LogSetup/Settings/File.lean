import LogSetup.Disk.FileTree
import LogSetup.Json.Reading
import LogSetup.Settings.Basic
import LogSetup.Yaml.Value

/-!
# Settings in files

A file whose name ends in `.json` holds a JSON object, and any other file a YAML mapping. Texts,
numbers and truth values count as settings, and other values are passed over. A file that does not
exist holds none.

## Main definitions

- `SettingsError` : why a file cannot be used
- `Settings.load` : the settings in a file
- `Settings.userPath` : where a user's settings are
- `Settings.standard` : the environment, then the user's settings
-/

namespace LogSetup

/-- Why a file of settings cannot be used. -/
inductive SettingsError where
  | io (cause : IoError)
  | yaml
  | json
  deriving DecidableEq, Repr

/-- The wording of an error. What a reader of YAML or JSON finds wrong is not told in detail. -/
def SettingsError.message : SettingsError → String
  | .io cause => "IO error: " ++ cause.message
  | .yaml => "Failed to parse YAML: <yaml>"
  | .json => "Failed to parse JSON: <json>"

namespace Settings

/-- The word for a truth value. -/
def boolText (b : Bool) : String := if b then "true" else "false"

/-- The text of a YAML value that can be a setting. -/
def yamlText? : Yaml.Value → Option String
  | .string s => some s
  | .number n => some n.text
  | .bool b => some (boolText b)
  | _ => none

/-- The text of a JSON value that can be a setting. -/
def jsonText? : Json.Value → Option String
  | .string s => some s
  | .number n => some n.text
  | .bool b => some (boolText b)
  | _ => none

/-- The fields that can be settings. Of equal names the last field counts, so a name whose last
field cannot be a setting has none. -/
def keep {α : Type} (text? : α → Option String) (fields : List (String × α)) : Entries :=
  let last := fun (field : String × α) (later : List (String × α)) =>
    later.all fun other => other.1 != field.1
  let rec go : List (String × α) → Entries
    | [] => []
    | field :: rest =>
      match text? field.2, last field rest with
      | some t, true => (field.1, t) :: go rest
      | _, _ => go rest
  go fields

/-- The settings in the text of a YAML file; blanks alone hold none. -/
def ofYaml (text : String) : Except SettingsError Entries :=
  if Text.isBlankText text then .ok []
  else
    match Yaml.Document.fields? (Utf8.encode text) with
    | some fields => .ok (keep yamlText? fields)
    | none => .error .yaml

/-- The settings in the text of a JSON file. -/
def ofJson (text : String) : Except SettingsError Entries :=
  match Json.read? text with
  | some (.object members) => .ok (keep jsonText? members)
  | _ => .error .json

/-- Whether the name of a file says that it is JSON. -/
def isJson (p : FilePath) : Bool :=
  match p.extension? with
  | some e => Text.lowerAscii (Utf8.decodeLossy e).toList == "json".toList
  | none => false

/-- The entries in the file at a path. -/
def loadEntries (disk : FileTree) (p : FilePath) : Except SettingsError Entries :=
  if disk.isThere p then
    match disk.readText p with
    | .error e => .error (.io e)
    | .ok text => if isJson p then ofJson text else ofYaml text
  else .ok []

/-- The settings in the file at a path. -/
def load (disk : FileTree) (p : FilePath) : Except SettingsError Settings :=
  (loadEntries disk p).map (Settings.file p)

/-- The folder of a user's settings: the one that the environment names by an absolute path, or
else one below the home folder. -/
def userFolder (env : Environment) : FilePath :=
  let atHome := (FilePath.mk ((env.value? "HOME").getD [])).join (FilePath.ofText ".config")
  match env.value? "XDG_CONFIG_HOME" with
  | some bytes => if (FilePath.mk bytes).isAbsolute then ⟨bytes⟩ else atHome
  | none => atHome

/-- The file of a user's settings. -/
def userPath (env : Environment) : FilePath :=
  ((userFolder env).join (FilePath.ofText "logboot")).join (FilePath.ofText "component.yaml")

/-- The environment, and after it the user's settings if their file can be used. -/
def standard (disk : FileTree) (env : Environment) : Settings :=
  .chain (.environment env ::
    match load disk (userPath env) with
    | .ok s => [s]
    | .error _ => [])

end Settings

end LogSetup
