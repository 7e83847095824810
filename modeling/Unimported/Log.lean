/-!
# `Unimported.Log`: log lines

- `LogLevel.shownAt` says which lines a run prints: those at its own level and the
  more severe ones.
-/

set_option autoImplicit false

namespace Unimported

/-- How much a log line matters. -/
inductive LogLevel where
  /-- Failures of the run. -/
  | error
  /-- Trouble that the run goes on after. -/
  | warn
  /-- What a run does. -/
  | info
  /-- How it does it. -/
  | debug
deriving DecidableEq, Repr

namespace LogLevel

/-- The rank of a level; the most severe one comes first. -/
def rank : LogLevel → Nat
  | error => 0
  | warn => 1
  | info => 2
  | debug => 3

/-- The name that a log line shows. -/
def name : LogLevel → String
  | error => "ERROR"
  | warn => "WARN"
  | info => "INFO"
  | debug => "DEBUG"

/-- Whether a line of this level is printed by a run with the level `limit`. -/
def shownAt (limit level : LogLevel) : Bool :=
  level.rank ≤ limit.rank

end LogLevel

/-- A log line. -/
structure LogLine where
  /-- How much it matters. -/
  level : LogLevel
  /-- What it says. -/
  message : String
deriving DecidableEq, Repr

namespace LogLine

/-- A line of level `warn`. -/
def warn (message : String) : LogLine := ⟨.warn, message⟩

/-- A line of level `info`. -/
def info (message : String) : LogLine := ⟨.info, message⟩

/-- A line of level `debug`. -/
def debug (message : String) : LogLine := ⟨.debug, message⟩

end LogLine

end Unimported
