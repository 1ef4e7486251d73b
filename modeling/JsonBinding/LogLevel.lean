import JsonBinding.DateFormat

/-!
# Log levels

How much a command tells about its work. A level is read from its name in any case.
-/

namespace JsonBinding

/-- A log level. -/
inductive LogLevel where
  | error
  | warn
  | info
  | debug
  | trace
  deriving DecidableEq

namespace LogLevel

/-- Every level. -/
def all : List LogLevel := [.error, .warn, .info, .debug, .trace]

/-- The name of a level. -/
def name : LogLevel → String
  | .error => "error"
  | .warn => "warn"
  | .info => "info"
  | .debug => "debug"
  | .trace => "trace"

/-- The level with a name. -/
def ofText? (s : String) : Option LogLevel := all.find? fun l => DateFormat.sameLetters l.name s

/-- Why a text names no level. -/
def refusal : String := "Matching variant not found"

end LogLevel

end JsonBinding
