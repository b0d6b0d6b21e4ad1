import LogSetup.Text.Split

/-!
# Configurations

Set-up never looks inside a configuration; it only hands configurations from factories to callers.

## Main definitions

- `Configuration` : the fallback, a document, or several configurations layered in order
- `Configuration.name`, `Configuration.location` : what every configuration tells
-/

namespace LogSetup

/-- What a document holds. -/
inductive Body where
  | text (content : String)
  | entries (pairs : List (String × String))
  deriving DecidableEq, Repr

/-- A logging configuration. -/
inductive Configuration where
  /-- Errors only, to the console. -/
  | default
  /-- What a factory made of a source, or out of itself. -/
  | document (name : String) (location : Option String) (body : Body)
  /-- Several configurations; later ones override earlier ones. -/
  | composite (children : List Configuration)
  deriving Repr, Inhabited

namespace Configuration

/-- The name of the fallback. -/
def defaultName : String := "Default"

/-- The level of the fallback's only logger. -/
def defaultLevel : String := "ERROR"

/-- The fallback's only output. -/
def defaultAppender : String := "Console"

mutual

/-- The name of a configuration. A composite lists the names of its children. -/
def name : Configuration → String
  | .default => defaultName
  | .document n _ _ => n
  | .composite cs => "Composite[" ++ Text.joinTexts "," (names cs) ++ "]"

/-- The names of configurations. -/
def names : List Configuration → List String
  | [] => []
  | c :: cs => name c :: names cs

end

mutual

/-- Where a configuration was loaded from. A composite lists the locations of those children that
have one. -/
def location : Configuration → Option String
  | .default => none
  | .document _ l _ => l
  | .composite cs =>
    let places := locations cs
    if places.isEmpty then none else some (Text.joinTexts "," places)

/-- The locations of those configurations that have one. -/
def locations : List Configuration → List String
  | [] => []
  | c :: cs => (location c).toList ++ locations cs

end

/-- Whether it is the fallback. -/
def isDefault : Configuration → Bool
  | .default => true
  | _ => false

end Configuration

end LogSetup
