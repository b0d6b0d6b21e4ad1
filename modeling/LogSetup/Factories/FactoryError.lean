import LogSetup.Source.LoadError

/-!
# Why a factory fails

## Main definitions

- `FactoryError` : the causes
- `FactoryError.message` : their wording
-/

namespace LogSetup

/-- Why a factory fails. To decline is not to fail. -/
inductive FactoryError where
  /-- The source is of a kind the factory knows, but faulty. -/
  | parse (factory location message : String)
  | load (cause : LoadError)
  | other (message : String)
  deriving DecidableEq, Repr

/-- The wording of an error. -/
def FactoryError.message : FactoryError → String
  | .parse factory location message => factory ++ " could not parse " ++ location ++ ": " ++ message
  | .load cause => cause.message
  | .other message => message

end LogSetup
