import LogSetup.Yaml.Value

/-!
# Provider manifests

A manifest is a YAML mapping. Two of its fields hold a number or a text, written bare or in quotes,
and two hold texts; other fields do not matter. Data of blanks alone is a manifest without fields.

## Main definitions

- `ManifestValue` : a number or a text
- `Manifest` : the fields
- `Manifest.decode?` : the manifest that data holds
-/

namespace LogSetup

/-- A field that may be written bare or in quotes. -/
inductive ManifestValue where
  | integer (value : Int)
  | float (value : Binary64)
  | text (value : String)
  deriving DecidableEq, Repr

namespace ManifestValue

/-- Numbers are written without an exponent. -/
def layout : Binary64.Layout :=
  { positional := none, wholeMark := false, exponentSign := "", nan := "NaN", infinity := "inf" }

/-- The text of a field. -/
def asText : ManifestValue → String
  | .integer i => Text.decimalInt i
  | .float x => layout.text x
  | .text s => s

/-- What a scalar stands for; truth values and integers of more than 64 bits are refused, and an
integer too large for a sign is kept as a rounded number. -/
def ofPlain? : Yaml.Plain → Option ManifestValue
  | .integer i =>
    some (if i < 0x8000000000000000 then .integer i else .float (Binary64.ofNat i.toNat))
  | .float x => some (.float x)
  | .text s => some (.text s)
  | .null => none
  | .bool _ => none
  | .wide _ => none

end ManifestValue

/-- The fields of a manifest. -/
structure Manifest where
  version : Option ManifestValue
  priority : Option ManifestValue
  factory : Option String
  contextMap : Option String
  deriving DecidableEq, Repr

namespace Manifest

/-- No fields. -/
def empty : Manifest := ⟨none, none, none, none⟩

/-- The names of the fields. -/
def versionField : String := "Log4jAPIVersion"

@[inherit_doc versionField]
def priorityField : String := "FactoryPriority"

@[inherit_doc versionField]
def factoryField : String := "LoggerContextFactory"

@[inherit_doc versionField]
def contextMapField : String := "ThreadContextMap"

/-- The null tag. -/
def nullTag : List Char := Yaml.Plain.coreTag "null"

/-- Whether a scalar says that there is no value; nothing when a null tag stands before another
text. A scalar written with marks is always a value. -/
def isAbsent? (tag : Option (List Char)) (style : Yaml.Style) (text : List Char) : Option Bool :=
  if style ≠ .plain then some false
  else
    match tag with
    | none => some (text = [] ∨ Yaml.isNullWord text)
    | some t =>
      if t = nullTag then (if Yaml.isNullWord text then some true else none) else some false

/-- A field that may be absent, of which `read?` reads a value that is there. -/
def optional? {α : Type} (d : Yaml.Document) (n : Yaml.Node)
    (read? : Option (List Char) → Yaml.Style → List Char → Option α) : Option (Option α) :=
  match d.follow? 0 n with
  | some (.scalar tag style text, _) =>
    match isAbsent? tag style text with
    | none => none
    | some true => some none
    | some false => (read? tag style text).map some
  | _ => none

/-- A number or a text. A tag of the application is refused. -/
def readValue? (tag : Option (List Char)) (style : Yaml.Style) (text : List Char) :
    Option ManifestValue :=
  match Yaml.localTag? tag with
  | some _ => none
  | none => (Yaml.Plain.ofScalar? tag style text).bind ManifestValue.ofPlain?

/-- A text, whatever its tag and style. -/
def readText? (_ : Option (List Char)) (_ : Yaml.Style) (text : List Char) : Option String :=
  some (String.ofList text)

/-- The node under a name. A name that stands twice is refused. -/
def field? (fields : List (String × Yaml.Node)) (name : String) : Option (Option Yaml.Node) :=
  match fields.filter fun f => f.1 == name with
  | [] => some none
  | [f] => some (some f.2)
  | _ => none

/-- A field that need not be written. -/
def fieldValue? {α : Type} (d : Yaml.Document) (fields : List (String × Yaml.Node)) (name : String)
    (read? : Option (List Char) → Yaml.Style → List Char → Option α) : Option (Option α) :=
  match field? fields name with
  | none => none
  | some none => some none
  | some (some n) => optional? d n read?

/-- The names and nodes of a mapping with names as keys. -/
def fields? (d : Yaml.Document) (entries : List (Yaml.Node × Yaml.Node)) :
    Option (List (String × Yaml.Node)) :=
  entries.mapM fun e => (d.text? 0 e.1).map fun k => (k.1, e.2)

/-- The manifest in a YAML document. -/
def ofDocument? (document : Option Yaml.Document) : Option Manifest := do
  let (d, entries) ← Yaml.Document.entries? document
  let fields ← fields? d entries
  let version ← fieldValue? d fields versionField readValue?
  let priority ← fieldValue? d fields priorityField readValue?
  let factory ← fieldValue? d fields factoryField readText?
  let contextMap ← fieldValue? d fields contextMapField readText?
  return { version, priority, factory, contextMap }

/-- The blanks that do not make a manifest. -/
def isBlankByte (b : UInt8) : Bool := b == 0x20 || b == 0x09 || b == 0x0A || b == 0x0C || b == 0x0D

/-- The manifest that data holds. -/
def decode? (data : Bytes) : Option Manifest :=
  if data.all isBlankByte then some empty else (Yaml.Document.read? data).bind ofDocument?

end Manifest

end LogSetup
