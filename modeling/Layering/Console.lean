import Layering.Text.Case
import Layering.Workspace.Site

/-!
# Consoles

Messages are shown on a console, with marks for style in square brackets, and recorded in a log that
keeps what is important enough.
-/

namespace Layering

/-- The levels of importance. -/
inductive LogLevel where
  | debug | info | warning | error | critical
deriving DecidableEq, Repr

namespace LogLevel

/-- Every level, by importance. -/
def all : List LogLevel := [.debug, .info, .warning, .error, .critical]

/-- The name of a level. -/
def name : LogLevel → Text
  | .debug => "DEBUG"
  | .info => "INFO"
  | .warning => "WARNING"
  | .error => "ERROR"
  | .critical => "CRITICAL"

/-- The level of a name. -/
def ofName? (name : Text) : Option LogLevel := all.find? (·.name = name)

/-- The rank of a level. -/
def rank (level : LogLevel) : Nat := all.idxOf level

end LogLevel

/-- The level of a message. -/
def Message.level (m : Message) : LogLevel :=
  match m.kind with
  | .step => .info
  | .error => .error
  | .warning => .warning
  | .debug => .debug

/-- An entry of a log. -/
structure LogRecord where
  level : LogLevel
  text : Text
deriving DecidableEq, Repr

/-- A console. -/
structure Console where
  name : Text
  color : Text := "cyan"
  welcome : Text := []
deriving DecidableEq, Repr

namespace Console

/-- Text in some style, with more after it. -/
def styled (style text more : Text) : Text :=
  ("[" : Text) ++ style ++ "]" ++ text ++ "[/" ++ style ++ "] " ++ more

/-- The first line. -/
def greeting (c : Console) : Text := styled ("bold " ++ c.color) c.name c.welcome

/-- What is recorded at the start. -/
def greetingRecord (c : Console) : LogRecord := ⟨.info, c.name ++ " session started"⟩

/-- The line for a message, if it is shown. -/
def line? (c : Console) (m : Message) : Option Text :=
  match m.kind with
  | .step => some (styled c.color ">" m.text)
  | .error => some (styled "bold red" "error:" m.text)
  | .warning => some (styled "yellow" "warning:" m.text)
  | .debug => none

/-- What is recorded of a message. -/
def record (m : Message) : LogRecord := ⟨m.level, m.text⟩

/-- The records that a log of some level keeps. -/
def kept (level : LogLevel) (records : List LogRecord) : List LogRecord :=
  records.filter fun r => level.rank ≤ r.level.rank

/-- The name of the log. -/
def logName (c : Console) : Text := "stratify_remediator." ++ Text.lower c.name

/-- The console of the command line. -/
def standard : Console :=
  { name := "STRATIFY", welcome := "Layering remediator online" }

end Console

end Layering
