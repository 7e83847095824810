import Unimported.Report.Format
import Unimported.Scan
import Unimported.Text.Colour

/-!
# `Unimported.Report.Terminal`: the report for a reader

A heading, one line for each file that nothing imports, and on request the references
that have no target.

- `TerminalReport.lines` are the lines of the report.
- `TerminalReport.render` is its text.
-/

set_option autoImplicit false

namespace Unimported

/-- How the report for a reader is written. -/
structure TerminalReport where
  /-- Whether references without a target are listed. -/
  showUnresolved : Bool := false
  /-- The word for source files in the heading. -/
  fileKind : String := "TypeScript"
  /-- Whether there is colour. -/
  colour : Bool := false
deriving DecidableEq, Repr

namespace TerminalReport

/-- The heading and the lines about the files that nothing imports. -/
def unusedLines (t : TerminalReport) (r : ScanReport) : List (List Char) :=
  if r.unusedFiles = [] then
    [Style.good.paint t.colour ("No unused " ++ t.fileKind ++ " files found!").toList]
  else
    Style.notice.paint t.colour ("Unused " ++ t.fileKind ++ " files:").toList ::
      r.unusedFiles.map fun p => '-' :: ' ' :: displayPath p

/-- The line about a reference without a target. -/
def unresolvedLine (t : TerminalReport) (u : UnresolvedReference) : List Char :=
  ' ' :: ' ' :: Style.name.paint t.colour (displayPath u.file) ++ ' ' ::
    Style.aside.paint t.colour ['→'] ++ ' ' :: u.specifier.toList

/-- The heading and the lines about references without a target, if there are any. -/
def unresolvedLines (t : TerminalReport) (r : ScanReport) : List (List Char) :=
  if r.unresolved = [] then []
  else
    [] :: Style.aside.paint t.colour
        ("Unresolved references (" ++ toString r.unresolved.length ++ "):").toList ::
      r.unresolved.map t.unresolvedLine

/-- The lines of the report. -/
def lines (t : TerminalReport) (r : ScanReport) : List (List Char) :=
  [] :: t.unusedLines r ++ if t.showUnresolved then t.unresolvedLines r else []

/-- The text of the report. -/
def render (t : TerminalReport) (r : ScanReport) : List Char :=
  (t.lines r).flatMap (· ++ ['\n'])

end TerminalReport

end Unimported
