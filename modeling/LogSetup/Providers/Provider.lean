import LogSetup.Loader.Basic
import LogSetup.Providers.Manifest

/-!
# Providers

A provider is a logging back-end that announced itself by a manifest. The manifest must declare an
API version that starts with a compatible one; a priority must be a whole number of 32 bits, and is
-1 when none is declared.

## Main definitions

- `Provider` : an announced back-end
- `ProviderError` : why a manifest announces none
- `Provider.ofManifest` : what the fields of a manifest announce
- `Provider.ofSource` : what data announces
-/

namespace LogSetup

/-- The name of the resource that holds a manifest. -/
def manifestResource : String := "META-INF/logboot-provider.yaml"

/-- The beginnings of compatible API versions. -/
def compatibleVersions : List String := ["2.6.0"]

/-- The priority of a provider that declares none. -/
def defaultPriority : Int := -1

/-- Whether a version starts with a compatible one. -/
def isCompatibleVersion (version : String) : Bool :=
  compatibleVersions.any fun front => Text.startsWith front version

/-- An announced back-end. -/
structure Provider where
  version : String
  priority : Int
  factory : Option String
  contextMap : Option String
  origin : Origin
  /-- The context that the back-end is loaded with. -/
  context : LoadingContext
  deriving DecidableEq, Repr

/-- Why a manifest announces no provider. -/
inductive ProviderError where
  | malformed (origin : String)
  | priority (origin text : String)
  | missingVersion (origin : String)
  | incompatibleVersion (origin version : String)
  deriving DecidableEq, Repr

/-- The wording of an error. What a reader of YAML finds wrong is not told in detail. -/
def ProviderError.message : ProviderError → String
  | .malformed origin => "Malformed provider manifest " ++ origin ++ ": <yaml>"
  | .priority origin text =>
    "Malformed provider manifest " ++ origin ++ ": FactoryPriority '" ++ text ++
      "' is not an integer"
  | .missingVersion origin => "Provider manifest " ++ origin ++ " does not declare Log4jAPIVersion"
  | .incompatibleVersion origin version =>
    "Provider manifest " ++ origin ++ " declares incompatible API version " ++ version

namespace Provider

/-- The version that a manifest declares, trimmed; a blank one counts as none. -/
def version? (m : Manifest) : Option String := m.version.bind fun v => Text.nonBlank? v.asText

/-- The priority that a manifest declares, or its text when that is no whole number of 32 bits. -/
def priorityOf (m : Manifest) : Except String Int :=
  match m.priority with
  | none => .ok defaultPriority
  | some v =>
    match Text.readInt32? (Text.trimChars v.asText.toList) with
    | some n => .ok n
    | none => .error v.asText

/-- The provider that the fields of a manifest announce. -/
def ofManifest (origin : Origin) (context : LoadingContext) (m : Manifest) :
    Except ProviderError Provider :=
  match version? m with
  | none => .error (.missingVersion origin.display)
  | some version =>
    if isCompatibleVersion version then
      match priorityOf m with
      | .ok priority =>
        .ok { version, priority, factory := m.factory, contextMap := m.contextMap, origin, context }
      | .error text => .error (.priority origin.display text)
    else .error (.incompatibleVersion origin.display version)

/-- The provider that data announces. -/
def ofSource (s : Source) (context : LoadingContext) : Except ProviderError Provider :=
  match Manifest.decode? s.data with
  | none => .error (.malformed s.origin.display)
  | some m => ofManifest s.origin context m

/-- A part of the text of a provider. -/
def part (label : String) : Option String → String
  | some value => ", " ++ label ++ "=" ++ value
  | none => ""

/-- The text of a provider. -/
def display (p : Provider) : String :=
  "Provider[priority=" ++ Text.decimalInt p.priority ++ part "factory" p.factory ++
    part "contextMap" p.contextMap ++ ", origin=" ++ p.origin.display ++ ", context=" ++
    p.context.name ++ "]"

/-- Read a manifest and report how that went. -/
def announce (s : Source) (context : LoadingContext) : Traced (Option Provider) :=
  match ofSource s context with
  | .ok p => do
    Traced.report .debug ("Loaded " ++ p.display)
    pure (some p)
  | .error e => do
    Traced.report .warn e.message
    pure none

/-- Read the manifests among candidates; one that cannot be opened or read does not stop the
others. -/
def announceAll (context : LoadingContext) : List (Except LoadError Source) → Traced (List Provider)
  | [] => pure []
  | .error e :: rest => do
    Traced.report .error ("Unable to open provider manifest: " ++ e.message)
    announceAll context rest
  | .ok s :: rest => do
    let found ← announce s context
    let more ← announceAll context rest
    pure (found.toList ++ more)

/-- Find and read every manifest that a loading context knows under a name. -/
def discover (l : Locator) (resource : String) : Traced (List Provider) := do
  let candidates ← l.findResources resource
  announceAll l.context candidates

end Provider

end LogSetup
