/-!
# Why a plug-in cannot be had

## Main definitions

- `PluginError` : the causes
- `PluginError.message` : their wording
-/

namespace LogSetup

/-- Why a plug-in cannot be had. -/
inductive PluginError where
  /-- The candidate could not build it. -/
  | instantiation (name message : String)
  /-- There is no candidate of the name. -/
  | unknown (category name : String)
  deriving DecidableEq, Repr

/-- The wording of an error. -/
def PluginError.message : PluginError → String
  | .instantiation name message => "Unable to create plugin " ++ name ++ ": " ++ message
  | .unknown category name => "No " ++ category ++ " plugin named " ++ name

end LogSetup
