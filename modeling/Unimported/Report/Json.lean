import Unimported.Report.Format
import Unimported.Scan
import Unimported.Text.Json

/-!
# `Unimported.Report.Json`: the report for a program

- `ScanReport.toJson` is the report as a JSON value.
- `ScanReport.renderJson` is its text, without a line break at the end.
-/

set_option autoImplicit false

namespace Unimported

/-- A path as the report shows it. -/
def jsonPath (p : Path) : Json :=
  .text (String.ofList (displayPath p))

namespace ReadFailure

/-- A failure as a JSON value. -/
def toJson (f : ReadFailure) : Json :=
  .object [("file", jsonPath f.file), ("error", .text f.error)]

end ReadFailure

namespace UnresolvedReference

/-- A reference as a JSON value. -/
def toJson (u : UnresolvedReference) : Json :=
  .object [("file", jsonPath u.file), ("specifier", .text u.specifier)]

end UnresolvedReference

namespace ScanReport

/-- The report as a JSON value. -/
def toJson (r : ScanReport) : Json :=
  .object [
    ("version", .text "1.0"),
    ("root", .text r.root.display),
    ("scanned_files", .count r.scannedFiles),
    ("total_unused", .count r.unusedFiles.length),
    ("unused_files", .list (r.unusedFiles.map jsonPath)),
    ("read_errors", .list (r.readErrors.map ReadFailure.toJson)),
    ("unresolved_references", .list (r.unresolved.map UnresolvedReference.toJson))]

/-- The text of the report. -/
def renderJson (r : ScanReport) : List Char :=
  r.toJson.render

end ScanReport

end Unimported
