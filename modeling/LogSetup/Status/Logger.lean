import LogSetup.Status.Level

/-!
# Status messages and where they go

Set-up runs before any logging works, so it reports through a channel of its own. A message that is
reported is first offered: a logger that is not enabled for its severity never sees it. What a
logger does with a message that it is handed is its own affair.

## Main definitions

- `StatusMessage` : one message
- `StatusLogger` : the kinds of logger
- `StatusLogger.record?`, `StatusLogger.offer?` : what is left of a message handed over or offered
- `messagesAt`, `hasMessage` : questions about recorded messages
-/

namespace LogSetup

/-- One status message. -/
structure StatusMessage where
  level : Level
  text : String
  deriving DecidableEq, Repr

/-- The environment variable that holds the least severity shown on the console. -/
def statusLevelVariable : String := "LOGBOOT_STATUS_LEVEL"

/-- What stands at the front of a status line on the console. -/
def statusFront : String := "[logboot]"

/-- The channel that forwarded messages are marked with. -/
def statusTarget : String := "logboot::status"

/-- Where status messages go. -/
inductive StatusLogger where
  /-- Nowhere. -/
  | silent
  /-- Lines on the console, for messages that are severe enough. -/
  | console (front : String) (least : Level)
  /-- A list that keeps every message. -/
  | memory
  /-- A list that keeps every message but asks for severe ones only. -/
  | gated (least : Level)
  /-- The event stream of the host program. -/
  | forwarding
  deriving DecidableEq, Repr

namespace StatusLogger

/-- The console logger of a process, by the value of its environment variable. -/
def standardConsole (setting : Option String) : StatusLogger :=
  .console statusFront ((setting.bind Level.read?).getD .error)

/-- Whether messages of a severity are wanted at all. -/
def isEnabled : StatusLogger → Level → Bool
  | .silent, _ => false
  | .console _ least, l => l.atLeast least
  | .memory, _ => true
  | .gated least, l => l.atLeast least
  | .forwarding, _ => true

/-- What becomes of a message that is handed over. -/
def record? : StatusLogger → StatusMessage → Option StatusMessage
  | .silent, _ => none
  | .console _ least, m => if m.level.atLeast least then some m else none
  | .memory, m => some m
  | .gated _, m => some m
  | .forwarding, m => some m

/-- What becomes of a message that is offered. -/
def offer? (logger : StatusLogger) (m : StatusMessage) : Option StatusMessage :=
  if logger.isEnabled m.level then logger.record? m else none

end StatusLogger

/-- A status line. -/
def StatusMessage.line (front : String) (m : StatusMessage) : String :=
  front ++ " " ++ m.level.label ++ " " ++ m.text

/-- An event of the host program: it knows no `fatal`, so such a message becomes a marked error. -/
structure ForwardedEvent where
  level : Level
  target : String
  message : String
  fatal : Bool
  deriving DecidableEq, Repr

/-- The event that a message is forwarded as. -/
def StatusMessage.forward (m : StatusMessage) : ForwardedEvent :=
  { level := if m.level = .fatal then .error else m.level
    target := statusTarget
    message := m.text
    fatal := m.level == .fatal }

/-- The texts of the messages of exactly one severity. -/
def messagesAt (level : Level) (ms : List StatusMessage) : List String :=
  (ms.filter fun m => m.level == level).map StatusMessage.text

/-- Whether a message of exactly this severity contains a text. -/
def hasMessage (level : Level) (needle : String) (ms : List StatusMessage) : Bool :=
  ms.any fun m => m.level == level && Text.contains needle m.text

end LogSetup
