import Unimported.Path.Basic

/-!
# `Unimported.Report.Format`: the formats of a report

- `ReportFormat.ofName?` reads the name of a format in any case of letters.
- `displayPath` is a path as reports show it.
-/

set_option autoImplicit false

namespace Unimported

/-- The format of a report. -/
inductive ReportFormat where
  /-- Lines for a reader. -/
  | terminal
  /-- JSON for a program. -/
  | json
deriving DecidableEq, Repr

namespace ReportFormat

/-- The name of a format. -/
def name : ReportFormat → String
  | terminal => "terminal"
  | json => "json"

/-- The format with this name. `text` is another name of `terminal`, and the case of
ASCII letters does not matter. -/
def ofName? (name : String) : Option ReportFormat :=
  let lower := name.toList.map Char.toLower
  if lower = "terminal".toList ∨ lower = "text".toList then some terminal
  else if lower = "json".toList then some json
  else none

end ReportFormat

/-- A path as reports show it: with slashes in the place of backslashes. -/
def displayPath (p : Path) : List Char :=
  p.chars.map fun c => if c = '\\' then '/' else c

end Unimported
