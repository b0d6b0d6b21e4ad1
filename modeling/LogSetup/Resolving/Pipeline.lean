import LogSetup.Resolving.Catalog

/-!
# Resolving a configuration

A request is answered by the first of these that has an answer: the location that it gives;
without one, the locations in the settings, or else the factories that take any location; the
conventional names; and last the fallback. Only an override in the settings that yields nothing is
an error. Everything else that goes wrong is reported.

## Main definitions

- `ResolveError` : why a request has no configuration
- `Resolution.firstAccepting`, `dispatch` : the two ways to find a factory for a source
- `Resolution.explicit`, `override`, `askWildcards`, `probe` : the stages
- `Resolution.resolve` : all of them
-/

namespace LogSetup

/-- Why a request has no configuration. -/
inductive ResolveError where
  /-- One location of several yielded nothing. -/
  | compositeAborted (location : String)
  /-- The only location yielded nothing. -/
  | overrideUnresolved (location : String)
  /-- The factory that requests are sent to has no answer. -/
  | declined (factory : String)
  /-- That factory failed. -/
  | factory (cause : FactoryError)
  deriving DecidableEq, Repr

/-- The wording of an error. -/
def ResolveError.message : ResolveError → String
  | .compositeAborted location =>
    "Failed to create configuration at " ++ location ++ "; composite configuration abandoned"
  | .overrideUnresolved location => "No configuration could be created from " ++ location
  | .declined name => "Configuration factory " ++ name ++ " declined the request"
  | .factory cause => cause.message

/-- The beginning of conventional names that is tried first. -/
def testStem : String := "log4j2-test"

/-- The beginning of conventional names that is tried next. -/
def mainStem : String := "log4j2"

namespace Resolution

/-- The configuration in an answer; an error is reported and counts as none. -/
def reported (x : Traced Answer) : Traced (Option Configuration) := do
  match ← x.answered with
  | .ok configuration => pure configuration
  | .error e =>
    Traced.report .error e.message
    pure none

/-- What a factory makes of a source; an error is reported and counts as nothing. -/
def parseWith (s : Source) (d : Descriptor) : Traced (Option Configuration) := reported (d.parse s)

/-- What the first of the factories eligible for a location makes of a source, in their order. -/
def firstAccepting (ds : List Descriptor) (s : Source) (location : String) :
    Traced (Option Configuration) :=
  Traced.firstSome (parseWith s) (ds.filter fun d => d.eligible location)

/-- Whether a factory is eligible for a source by where the source came from. -/
def eligibleFor (s : Source) (d : Descriptor) : Bool :=
  match s.location with
  | some location => d.eligible location
  | none => d.acceptsAll

/-- What the one factory that comes first for a source makes of it. -/
def dispatch (ds : List Descriptor) (s : Source) : Traced (Option Configuration) :=
  match ds.find? (eligibleFor s) with
  | none => do
    Traced.report .error ("No configuration factory supports " ++ s.origin.display)
    pure none
  | some d => do
    match ← parseWith s d with
    | some c =>
      Traced.report .debug ("Loaded configuration from " ++ s.origin.display)
      pure (some c)
    | none =>
      Traced.report .error
        ("Cannot determine the configuration factory to use for " ++ s.origin.display)
      pure none

/-! ### An explicit location -/

/-- The configuration in the resource that a location names. -/
def fromResource (ds : List Descriptor) (l : Locator) (location : Location) :
    Traced (Option Configuration) := do
  match ← l.openAsResource location with
  | some s => dispatch ds s
  | none => pure none

/-- The configuration in whatever a location opens to. -/
def fromLocation (ds : List Descriptor) (l : Locator) (location : Location) :
    Traced (Option Configuration) := do
  match ← l.openLocation location with
  | some s => firstAccepting ds s location.display
  | none => pure none

/-- The configuration at an explicit location. -/
def explicit (ds : List Descriptor) (l : Locator) (location : Location) :
    Traced (Option Configuration) :=
  Traced.firstSome (fun way => way ds l location) [fromResource, fromLocation]

/-! ### Locations in the settings -/

/-- The locations in a list separated by commas; blanks around them and empty ones do not count. -/
def segments (raw : String) : List String :=
  ((Text.splitOn ',' raw.toList).map fun piece => String.ofList (Text.trimChars piece)).filter
    fun piece => piece != ""

/-- The configuration at one location of the settings. -/
def single (ds : List Descriptor) (l : Locator) (location : String) :
    Traced (Option Configuration) := do
  match ← l.openText location with
  | some s => firstAccepting ds s location
  | none => pure none

/-- The configurations at several locations, or the first location that yields none; those after
it are not looked at. -/
def all (ds : List Descriptor) (l : Locator) :
    List String → Traced (Except ResolveError (List Configuration))
  | [] => pure (.ok [])
  | location :: rest => do
    match ← single ds l location with
    | none =>
      Traced.report .error ("Failed to create configuration at " ++ location)
      pure (.error (.compositeAborted location))
    | some c =>
      match ← all ds l rest with
      | .ok cs => pure (.ok (c :: cs))
      | .error e => pure (.error e)

/-- The configuration of a single location, or an error. -/
def only (ds : List Descriptor) (l : Locator) (location : String) :
    Traced (Except ResolveError Configuration) := do
  match ← single ds l location with
  | some c => pure (.ok c)
  | none => pure (.error (.overrideUnresolved location))

/-- The configuration that the settings ask for: of several locations a composite of all. -/
def override (ds : List Descriptor) (l : Locator) (raw : String) :
    Traced (Except ResolveError Configuration) :=
  match segments raw with
  | [] => only ds l raw
  | [location] => only ds l location
  | locations => do
    match ← all ds l locations with
    | .ok cs => pure (.ok (.composite cs))
    | .error e => pure (.error e)

/-! ### Without a location -/

/-- The first configuration that a factory which takes any location gives directly. -/
def askWildcards (ds : List Descriptor) (r : Request) : Traced (Option Configuration) :=
  Traced.firstSome (fun d => reported (d.configurationFor r)) (ds.filter Descriptor.acceptsAll)

/-- The conventional names of one pass with the factories that they are meant for, in the order in
which they are looked up. -/
def conventional (ds : List Descriptor) (stem : String) : List (Descriptor × String) :=
  (ds.filter Descriptor.isActive).flatMap fun d => d.endings.map fun ending => (d, stem ++ ending)

/-- One pass: the first conventional name that loads is parsed by the factory that it is meant for,
and the names after it are not looked up. -/
def probePass (l : Locator) : List (Descriptor × String) → Traced (Option Configuration)
  | [] => pure none
  | (d, resource) :: rest => do
    match ← l.openResource resource with
    | some s =>
      Traced.report .debug ("Found " ++ resource ++ " for " ++ d.name)
      parseWith s d
    | none => probePass l rest

/-- The beginnings of the conventional names, one for each pass. -/
def stems : Option String → List String
  | some name => [testStem ++ name, testStem, mainStem ++ name, mainStem]
  | none => [testStem, mainStem]

/-- The configuration under a conventional name. -/
def probe (ds : List Descriptor) (l : Locator) (name : Option String) :
    Traced (Option Configuration) :=
  Traced.firstSome (fun stem => probePass l (conventional ds stem)) (stems name)

/-- The text reported when nothing is found. -/
def fallbackMessage : String :=
  "No configuration file found. Using default configuration: logging only errors to the console." ++
    " Set " ++ statusLevelVariable ++ "=trace to show initialization logging."

/-- The fallback. -/
def fallback : Traced (Except ResolveError Configuration) := do
  Traced.report .error fallbackMessage
  pure (.ok .default)

/-- The name that takes part in conventional names; an empty one counts as none. -/
def probeName (r : Request) : Option String := r.name.filter fun n => n != ""

/-- The first configuration of some stages, or the fallback. -/
def orFallback (stages : List (Traced (Option Configuration))) :
    Traced (Except ResolveError Configuration) := do
  match ← Traced.firstSome id stages with
  | some c => pure (.ok c)
  | none => fallback

/-- The configuration for a request. -/
def resolve (ds : List Descriptor) (settings : Settings) (r : Request) :
    Traced (Except ResolveError Configuration) :=
  let probed := probe ds r.locator (probeName r)
  match r.location with
  | some location => orFallback [explicit ds r.locator location, probed]
  | none =>
    match settings.get? fileSetting with
    | some raw => override ds r.locator raw
    | none => orFallback [askWildcards ds r, probed]

end Resolution

end LogSetup
