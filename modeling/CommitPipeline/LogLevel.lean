import CommitPipeline.Text.Blank
import CommitPipeline.Text.Lowercase

/-! How important a line of the log is, and how much of the log is wanted. -/
namespace CommitPipeline

inductive LogLevel where
  | error
  | warn
  | info
  | debug
  | trace
  deriving DecidableEq

namespace LogLevel

/-- The name of a level on the command line. -/
def label : LogLevel → String
  | .error => "error"
  | .warn => "warn"
  | .info => "info"
  | .debug => "debug"
  | .trace => "trace"

/-- The name of a level in the log. -/
def title : LogLevel → String
  | .error => "ERROR"
  | .warn => "WARN"
  | .info => "INFO"
  | .debug => "DEBUG"
  | .trace => "TRACE"

/-- The level with exactly this name. -/
def ofLabel? (s : String) : Option LogLevel :=
  if s = "error" then some .error
  else if s = "warn" then some .warn
  else if s = "info" then some .info
  else if s = "debug" then some .debug
  else if s = "trace" then some .trace
  else none

theorem ofLabel?_label (l : LogLevel) : ofLabel? l.label = some l := by
  cases l <;> simp [ofLabel?, label]

/-- The level that a setting of the environment asks for, in any case and with blanks around it. -/
def ofSetting? (s : String) : Option LogLevel :=
  let name := Text.lowercase (Text.trim s)
  if name = "warning" then some .warn else ofLabel? name

/-- How much of the log is shown when a level is asked for: the higher, the more. -/
def detail : LogLevel → Nat
  | .error => 0
  | .warn => 1
  | .info => 2
  | .debug => 3
  | .trace => 4

/-- Whether a line of some level is shown when another level is asked for. -/
def shows (wanted level : LogLevel) : Bool := level.detail ≤ wanted.detail

end LogLevel

/-- A line of the log, without the time. -/
structure LogEntry where
  level : LogLevel
  text : String

end CommitPipeline
