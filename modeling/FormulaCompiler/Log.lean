/-!
# Log entries

What the compiler reports about its own work, apart from its results.
-/

namespace FormulaCompiler

/-- How much an entry matters, in ascending order. -/
inductive LogLevel where
  | trace
  | debug
  | info
  | warning
  | error
  deriving DecidableEq

def LogLevel.text : LogLevel → String
  | trace => "TRACE"
  | debug => "DEBUG"
  | info => "INFO"
  | warning => "WARN"
  | error => "ERROR"

structure LogEntry where
  level : LogLevel
  message : String
  deriving DecidableEq

def LogEntry.text (entry : LogEntry) : String := entry.level.text ++ " " ++ entry.message

/-- Entries in the order in which they were made. -/
abbrev Log := Array LogEntry

end FormulaCompiler
