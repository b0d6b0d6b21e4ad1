/-!
# Names of environment variables

The setting `log4j.configurationFile` is looked for under `LOG4J_CONFIGURATION_FILE`: separators
become underscores, an underscore comes before every capital that follows a small letter or digit,
and small letters become capitals. Letters are those of ASCII.

## Main definitions

- `variableName` : the conventional name for a setting
-/

namespace LogSetup

/-- Characters that separate the words of a setting's name. -/
def isWordSeparator (c : Char) : Bool := c == '.' || c == '-' || c == ' '

/-- Small letters and digits: a capital after one starts a word. -/
def endsWord (c : Char) : Bool := c.isLower || c.isDigit

/-- What a character becomes, given whether it follows a small letter or digit. -/
def variableChar (afterWord : Bool) (c : Char) : List Char :=
  if isWordSeparator c then ['_']
  else if c.isUpper ∧ afterWord then ['_', c]
  else [c.toUpper]

/-- The rest of a name, given whether it follows a small letter or digit. -/
def variableChars (afterWord : Bool) : List Char → List Char
  | [] => []
  | c :: rest => variableChar afterWord c ++ variableChars (endsWord c) rest

/-- The conventional name for a setting. -/
def variableName (key : String) : String := String.ofList (variableChars false key.toList)

end LogSetup
