import Unimported.Discovery
import Unimported.Log
import Unimported.Reachability
import Unimported.Resolution

/-!
# `Unimported.Scan`: one scan of a root

A scan finds the source files under a root, reads each of them, resolves what it
imports, and reports the files that no file imports. A file that cannot be read
imports nothing.

- `survey` does the looking: what was found, and what each file gave.
- `Survey.report` and `Survey.log` say what came of it.
- `scan` is the report of a survey.
-/

set_option autoImplicit false

namespace Unimported

/-- A source file that could not be read. -/
structure ReadFailure where
  /-- The file, as a path from the root. -/
  file : Path
  /-- The text of the failure. -/
  error : String
deriving DecidableEq, Repr

/-- A reference that has no target. -/
structure UnresolvedReference where
  /-- The importing file, as a path from the root. -/
  file : Path
  /-- The specifier as written. -/
  specifier : String
deriving DecidableEq, Repr

/-- What a scan reports. -/
structure ScanReport where
  /-- The root as it was given. -/
  root : Path
  /-- How many source files there are. -/
  scannedFiles : Nat
  /-- The files that nothing imports, in order, as paths from the root. -/
  unusedFiles : List Path
  /-- The files that could not be read, in order. -/
  readErrors : List ReadFailure
  /-- The references without a target, by file and then as they occur there. -/
  unresolved : List UnresolvedReference
deriving DecidableEq, Repr

/-- Whether a scan has found a file that nothing imports. -/
def ScanReport.hasUnused (r : ScanReport) : Bool :=
  !r.unusedFiles.isEmpty

/-- What one source file gave. -/
structure Finding where
  /-- The file. -/
  file : SourceFile
  /-- What became of its references, if it could be read. -/
  outcome : Except IoError Resolution

namespace Finding

/-- What became of the references of a file. A file that could not be read has
none. -/
def resolution (f : Finding) : Resolution :=
  match f.outcome with
  | .ok r => r
  | .error _ => ⟨[], []⟩

/-- The failure to read the file, if there was one. -/
def readError? (f : Finding) : Option IoError :=
  match f.outcome with
  | .ok _ => none
  | .error e => some e

end Finding

/-- The text of the failure to read a file. -/
def readErrorText (file : SourceFile) (e : IoError) : String :=
  "Error reading " ++ file.path.display ++ ": " ++ e.message

/-- The relative imports of a source file. -/
def readReferences (w : Workspace) (extensions : List String) (root : Path)
    (file : SourceFile) : Except IoError (List Reference) :=
  (w.readText file.path).map fun text =>
    references extensions root file.directory text

/-- What a scan has seen. -/
structure Survey where
  /-- The root as it was given. -/
  root : Path
  /-- What was found under it. -/
  discovery : Discovery
  /-- What each of the files gave, in order. -/
  findings : List Finding

/-- Looks at every source file under a root. -/
def survey (w : Workspace) (c : Config) (root : Path) : Survey :=
  let discovery := discover w c root
  { root
    discovery
    findings := discovery.sourceFiles.map fun file =>
      ⟨file, (readReferences w c.extensions root file).map (resolve w root)⟩ }

namespace Survey

/-- The source files, as paths from the root. -/
def candidates (s : Survey) : List Path :=
  (PathSet.ofList (s.discovery.sourceFiles.map (·.relative))).toList

/-- The targets of each file. -/
def targets (s : Survey) : Targets :=
  Targets.ofList (s.findings.map fun f => (f.file.relative, f.resolution.resolved))

/-- The files that nothing imports. -/
def unusedFiles (s : Survey) (c : Config) : List Path :=
  unused c s.candidates s.targets

/-- What a scan reports. -/
def report (s : Survey) (c : Config) : ScanReport where
  root := s.root
  scannedFiles := s.candidates.length
  unusedFiles := s.unusedFiles c
  readErrors := s.findings.filterMap fun f =>
    f.readError?.map fun e => ⟨f.file.relative, e.message⟩
  unresolved := s.findings.flatMap fun f =>
    f.resolution.unresolved.map fun specifier => ⟨f.file.relative, specifier⟩

/-! ### Log -/

/-- The lines about the search for source files. -/
def discoveryLog (s : Survey) : List LogLine :=
  .debug ("Scanning for files in: " ++ s.root.display) ::
    match s.discovery with
    | .notADirectory => [.warn ("Scan root is not a directory: " ++ s.root.display)]
    | .vendorRoot =>
      [.debug ("Scan root lies inside vendor directory: " ++ s.root.display)]
    | .files found => [.debug ("Found " ++ toString found.length ++ " files")]

/-- The lines about one file. -/
def findingLog (f : Finding) : List LogLine :=
  (f.readError?.map fun e => LogLine.warn (readErrorText f.file e)).toList ++
    f.resolution.unresolved.map fun specifier =>
      .debug ("Unresolved reference: " ++ specifier)

/-- The line about a file that nothing imports. -/
def unreferencedLog (c : Config) (p : Path) : LogLine :=
  if c.isEntryPoint p then .debug ("Entry point: " ++ p.display)
  else .debug ("Unreferenced: " ++ p.display)

/-- The log lines of a scan. -/
def log (s : Survey) (c : Config) : List LogLine :=
  s.discoveryLog ++ s.findings.flatMap findingLog ++
    (unreferenced s.candidates s.targets).map (unreferencedLog c) ++
    [.info ("Scanned " ++ toString s.candidates.length ++ " files, " ++
      toString (s.unusedFiles c).length ++ " unused")]

end Survey

/-- What a scan of a root reports. -/
def scan (w : Workspace) (c : Config) (root : Path) : ScanReport :=
  (survey w c root).report c

end Unimported
