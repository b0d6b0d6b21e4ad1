import LogSetup.Text.Blank
import LogSetup.Text.Split

/-!
# Severity of status messages

## Main definitions

- `Level` : the six severities, from `trace` to `fatal`
- `Level.atLeast` : their order
- `Level.read?` : the severity that a word names
-/

namespace LogSetup

/-- How severe a status message is. -/
inductive Level where
  | trace
  | debug
  | info
  | warn
  | error
  | fatal
  deriving DecidableEq, Repr

namespace Level

/-- The severities in ascending order. -/
def all : List Level := [.trace, .debug, .info, .warn, .error, .fatal]

/-- The place of a severity in their order. -/
def toNat : Level → Nat
  | .trace => 0
  | .debug => 1
  | .info => 2
  | .warn => 3
  | .error => 4
  | .fatal => 5

/-- Whether `l` is as severe as `least` or more. -/
def atLeast (l least : Level) : Bool := decide (least.toNat ≤ l.toNat)

/-- The word for a severity. -/
def name : Level → String
  | .trace => "trace"
  | .debug => "debug"
  | .info => "info"
  | .warn => "warn"
  | .error => "error"
  | .fatal => "fatal"

/-- The severity in a status line: five capitals or blanks. -/
def label : Level → String
  | .trace => "TRACE"
  | .debug => "DEBUG"
  | .info => "INFO "
  | .warn => "WARN "
  | .error => "ERROR"
  | .fatal => "FATAL"

/-- The severity that a word names. Blanks around it and capitals do not matter; `warning` is
another word for `warn`. Only ASCII capitals have one of the letters of these words as their small
form. -/
def read? (s : String) : Option Level :=
  let word := String.ofList (Text.lowerAscii (Text.trimChars s.toList))
  if word = "warning" then some .warn else all.find? fun l => l.name == word

end Level

end LogSetup
