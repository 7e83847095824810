import Unimported.CommandLine
import Unimported.Config.File
import Unimported.Report.Json
import Unimported.Report.Terminal
import Unimported.Text.Quoted

/-!
# `Unimported.Run`: a run of the program

A run reads the configuration, scans the root and writes the report. It fails on a
configuration file that was asked for and is broken, on the unknown name of a format,
and on an output file that cannot be written; files of the scan never make it fail.

- `Command.configure` is the configuration that holds for a command.
- `Command.execute` is the outcome of a command.
- `run` is the outcome of a command line.
-/

set_option autoImplicit false

namespace Unimported

/-- Why a run fails. -/
inductive RunError where
  /-- The configuration file gives no configuration. -/
  | config (cause : ConfigError)
  /-- No format has this name. -/
  | unknownFormat (name : String)
  /-- The report could not be written. -/
  | unwritable (path : Path)
deriving DecidableEq, Repr

/-- The text of a failure. -/
def RunError.message : RunError → String
  | config cause => cause.message
  | unknownFormat name => "Unknown report format: " ++ name
  | unwritable path => "Failed to write report: " ++ path.display

/-- What a run leaves behind. -/
structure Outcome where
  /-- The exit status. -/
  exitCode : Nat
  /-- What was printed. -/
  stdout : List Char := []
  /-- The log lines that were printed. -/
  log : List LogLine := []
  /-- Why the run failed, if it did. -/
  failure : Option RunError := none
  /-- The files afterwards. -/
  workspace : Workspace

/-- A configuration as the log shows it. -/
def Config.quoted (c : Config) : String :=
  "Config \x7b vendor_dir: " ++ Quoted.text c.vendorDir ++
    ", extensions: " ++ Quoted.texts c.extensions ++
    ", entry_points: " ++ Quoted.texts c.entryPoints ++
    ", report: ReportConfig \x7b format: " ++ Quoted.text c.report.format ++
    ", show_unresolved: " ++ (if c.report.showUnresolved then "true" else "false") ++
    " \x7d \x7d"

namespace Command

/-- The configuration before the options of the command, and the log lines about it. -/
def baseConfig (c : Command) (w : Workspace) : Except ConfigError (Config × List LogLine) :=
  match c.config? with
  | some p => (Config.load w p).map fun config => (config, [])
  | none => .ok (Config.probe w c.root)

/-- The configuration that holds for the command, and the log lines about it. -/
def configure (c : Command) (w : Workspace) : Except ConfigError (Config × List LogLine) :=
  (c.baseConfig w).map fun (config, log) => (c.override config, log)

/-- The format of the report. -/
def reportFormat (c : Command) (config : Config) : Except RunError ReportFormat :=
  match c.format? with
  | some f => .ok f
  | none =>
    match ReportFormat.ofName? config.report.format with
    | some f => .ok f
    | none => .error (.unknownFormat config.report.format)

/-- What the report for a reader looks like. -/
def terminalReport (config : Config) (colour : Bool) : TerminalReport where
  showUnresolved := config.report.showUnresolved
  fileKind := config.fileKind
  colour := colour

/-- Prints or writes a report: the text that is printed, and the files afterwards. Only a
JSON report goes into an output file. -/
def deliver (c : Command) (w : Workspace) (config : Config) (colour : Bool)
    (format : ReportFormat) (report : ScanReport) :
    Except RunError (List Char × Workspace) :=
  match format, c.output? with
  | .terminal, _ => .ok ((terminalReport config colour).render report, w)
  | .json, none => .ok (report.renderJson ++ ['\n'], w)
  | .json, some p =>
    match w.write p (Utf8.encode report.renderJson) with
    | .ok written => .ok (("Report written to: " ++ p.display ++ "\n").toList, written)
    | .error _ => .error (.unwritable p)

/-- The log line that a run starts with. -/
def greeting : LogLine :=
  .info ("deadfiles v" ++ CommandLine.version)

/-- The outcome of a run that fails. -/
def failed (c : Command) (w : Workspace) (log : List LogLine) (e : RunError) : Outcome where
  exitCode := 1
  log := log.filter fun line => c.logLevel.shownAt line.level
  failure := some e
  workspace := w

/-- The outcome of a run that succeeds. -/
def succeeded (c : Command) (w : Workspace) (log : List LogLine) (stdout : List Char) :
    Outcome where
  exitCode := 0
  stdout := stdout
  log := log.filter fun line => c.logLevel.shownAt line.level
  workspace := w

/-- The outcome of a command. -/
def execute (c : Command) (w : Workspace) (colour : Bool) : Outcome :=
  match c.configure w with
  | .error e => c.failed w [greeting] (.config e)
  | .ok (config, configLog) =>
    let log := greeting :: configLog ++ [.debug ("Configuration: " ++ config.quoted)]
    match c.reportFormat config with
    | .error e => c.failed w log e
    | .ok format =>
      -- The format is checked before the scan, the output file only after it.
      let s := survey w config c.root
      let log := log ++ s.log config
      match c.deliver w config colour format (s.report config) with
      | .ok (stdout, written) => c.succeeded written log stdout
      | .error e => c.failed w log e

end Command

/-- The outcome of a command line. -/
def run (w : Workspace) (arguments : List Argument) (colour : Bool) : Outcome :=
  match CommandLine.parse arguments with
  | .ok c => c.execute w colour
  | .error .help => { exitCode := 0, stdout := CommandLine.help, workspace := w }
  | .error .version => { exitCode := 0, stdout := CommandLine.versionLine, workspace := w }
  | .error .badArguments => { exitCode := 2, workspace := w }

end Unimported
