import Unimported.Path.Basic
import Unimported.Text.Infix

/-!
# `Unimported.Config.Basic`: the configuration of a scan

What a scan takes for a source file, which directories it leaves out, which files it
never reports, and how the report looks. Every field has a default.

- `Config.normalized` puts the extensions into the form with a leading dot.
- `Config.isSourceName`, `Config.isVendorPath` and `Config.isEntryPoint` are the three
  tests that a scan makes on names and paths.
-/

set_option autoImplicit false

namespace Unimported

/-- How the report looks. -/
structure ReportConfig where
  /-- The name of the output format. -/
  format : String := "terminal"
  /-- Whether references without a target are listed. -/
  showUnresolved : Bool := false
deriving DecidableEq, Repr, Inhabited

/-- The configuration of a scan. -/
structure Config where
  /-- Directories whose path contains this text are left out; no text, no directory. -/
  vendorDir : String := "node_modules"
  /-- The endings of source file names, in the order in which an import tries them. -/
  extensions : List String := [".ts", ".tsx"]
  /-- The names of files that are used without being imported. -/
  entryPoints : List String := ["index.ts", "App.tsx"]
  /-- How the report looks. -/
  report : ReportConfig := {}
deriving DecidableEq, Repr, Inhabited

namespace Config

/-- An extension with its leading dot. -/
def withDot (extension : String) : String :=
  if extension.toList.head? = some '.' then extension else "." ++ extension

/-- The configuration in which `ts` and `.ts` are the same extension and no extension
is empty. -/
def normalized (c : Config) : Config :=
  { c with extensions := (c.extensions.filter (· ≠ "")).map withDot }

/-- The word for source files in headings. -/
def fileKind (c : Config) : String :=
  if c.extensions = ({} : Config).extensions then "TypeScript" else "source"

/-- Whether a file name, as shown, ends in one of the extensions. -/
def isSourceName (c : Config) (name : List Char) : Bool :=
  c.extensions.any fun extension => extension.toList.isSuffixOf name

/-- Whether a path, as shown, contains the text that marks vendor directories. -/
def isVendorPath (c : Config) (p : Path) : Bool :=
  c.vendorDir ≠ "" && isInfixOf c.vendorDir.toList p.chars

/-- Whether the last name of a path is an entry point. -/
def isEntryPoint (c : Config) (p : Path) : Bool :=
  match p.fileName? with
  | some name => c.entryPoints.any fun entry => Utf8.encode entry.toList == name
  | none => false

end Config

end Unimported
