import Unimported.Config.Basic
import Unimported.Log
import Unimported.Report.Format

/-!
# `Unimported.CommandLine`: the command line

Arguments are read from left to right. The first that is wrong, or that asks for help or
the version, decides; so nothing after it is looked at.

- `Command` is what a command line asks for.
- `CommandLine.parse` reads the arguments.
- `Command.override` puts the options of a command over a configuration.
- `CommandLine.help` and `CommandLine.version` are the texts on request.
-/

set_option autoImplicit false

namespace Unimported

/-- An argument, as bytes. -/
abbrev Argument := List UInt8

/-- What a command line asks for. -/
structure Command where
  /-- The root of the scan, if it is given. -/
  path? : Option Path := none
  /-- The configuration file. -/
  config? : Option Path := none
  /-- The text that marks vendor directories. -/
  vendorDir? : Option String := none
  /-- The extensions in the place of the configured ones. -/
  extensions : List String := []
  /-- Further entry points. -/
  entryPoints : List String := []
  /-- The format of the report. -/
  format? : Option ReportFormat := none
  /-- The file for a JSON report. -/
  output? : Option Path := none
  /-- Whether references without a target are listed. -/
  showUnresolved : Bool := false
  /-- Whether the log has every detail. -/
  verbose : Bool := false
  /-- Whether the log is left out. -/
  quiet : Bool := false
deriving DecidableEq, Repr

namespace Command

/-- The root of the scan. -/
def root (c : Command) : Path :=
  c.path?.getD (Path.ofString "frontend")

/-- The least severe log lines that are printed. -/
def logLevel (c : Command) : LogLevel :=
  if c.quiet then .error else if c.verbose then .debug else .info

/-- The configuration with the options of the command put over it. -/
def override (c : Command) (config : Config) : Config :=
  ({ vendorDir := c.vendorDir?.getD config.vendorDir
     extensions := if c.extensions = [] then config.extensions else c.extensions
     entryPoints := config.entryPoints ++ c.entryPoints
     report := {
       format := (c.format?.map ReportFormat.name).getD config.report.format
       showUnresolved := config.report.showUnresolved || c.showUnresolved } } :
    Config).normalized

end Command

namespace CommandLine

/-! ### Options -/

/-- An option that is only given or not. -/
inductive Switch where
  /-- `--show-unresolved` -/
  | showUnresolved
  /-- `-v`, `--verbose` -/
  | verbose
  /-- `-q`, `--quiet` -/
  | quiet
  /-- `-h`, `--help` -/
  | help
  /-- `-V`, `--version` -/
  | version
deriving DecidableEq, Repr

/-- An option that has a value. -/
inductive Setting where
  /-- `-c`, `--config` -/
  | config
  /-- `--vendor-dir` -/
  | vendorDir
  /-- `-x`, `--extension` -/
  | extension
  /-- `-e`, `--entry-point` -/
  | entryPoint
  /-- `-f`, `--format` -/
  | format
  /-- `-o`, `--output` -/
  | output
deriving DecidableEq, Repr

/-- An option. -/
inductive Flag where
  /-- An option without a value. -/
  | switch (s : Switch)
  /-- An option with a value. -/
  | setting (s : Setting)
deriving DecidableEq, Repr

/-- The options by their long names. -/
def longNames : List (String × Flag) :=
  [("config", .setting .config), ("vendor-dir", .setting .vendorDir),
    ("extension", .setting .extension), ("entry-point", .setting .entryPoint),
    ("format", .setting .format), ("output", .setting .output),
    ("show-unresolved", .switch .showUnresolved), ("verbose", .switch .verbose),
    ("quiet", .switch .quiet), ("help", .switch .help), ("version", .switch .version)]

/-- The options by their letters. -/
def letters : List (Char × Flag) :=
  [('c', .setting .config), ('x', .setting .extension), ('e', .setting .entryPoint),
    ('f', .setting .format), ('o', .setting .output), ('v', .switch .verbose),
    ('q', .switch .quiet), ('h', .switch .help), ('V', .switch .version)]

/-- The option with a long name, which must be written in full. -/
def ofLongName? (name : List UInt8) : Option Flag :=
  (longNames.find? fun row => Utf8.encode row.1.toList == name).map (·.2)

/-- The option with a letter. -/
def ofLetter? (letter : UInt8) : Option Flag :=
  (letters.find? fun row => row.1.toNat == letter.toNat).map (·.2)

/-- Why no command comes of the arguments. -/
inductive Stop where
  /-- The help text is asked for. -/
  | help
  /-- The version is asked for. -/
  | version
  /-- An argument is wrong. -/
  | badArguments
deriving DecidableEq, Repr

/-! ### Values -/

/-- A value that is a path, which may not be empty. -/
def pathValue (value : Argument) : Except Stop Path :=
  if value = [] then .error .badArguments else .ok ⟨value⟩

/-- A value that is a text. -/
def textValue (value : Argument) : Except Stop String :=
  match Utf8.decode value with
  | some text => .ok (String.ofList text)
  | none => .error .badArguments

/-- A value that is the name of a format. -/
def formatValue (value : Argument) : Except Stop ReportFormat :=
  if value = Utf8.encode ReportFormat.terminal.name.toList then .ok .terminal
  else if value = Utf8.encode ReportFormat.json.name.toList then .ok .json
  else .error .badArguments

/-- A value for an option that may be given once, which `before` says it was. -/
def once {α : Type} (before : Option α) (value : Except Stop α) : Except Stop (Option α) :=
  if before.isSome then .error .badArguments else value.map some

/-- A switch that may be given once. -/
def onceOn (before : Bool) : Except Stop Bool :=
  if before then .error .badArguments else .ok true

/-- The command with the path to scan. -/
def setPath (c : Command) (value : Argument) : Except Stop Command :=
  (once c.path? (pathValue value)).map fun p => { c with path? := p }

/-- The command with a value for an option. -/
def set (c : Command) (value : Argument) : Setting → Except Stop Command
  | .config => (once c.config? (pathValue value)).map fun p => { c with config? := p }
  | .vendorDir =>
    (once c.vendorDir? (textValue value)).map fun t => { c with vendorDir? := t }
  | .extension =>
    (textValue value).map fun t => { c with extensions := c.extensions ++ [t] }
  | .entryPoint =>
    (textValue value).map fun t => { c with entryPoints := c.entryPoints ++ [t] }
  | .format => (once c.format? (formatValue value)).map fun f => { c with format? := f }
  | .output => (once c.output? (pathValue value)).map fun p => { c with output? := p }

/-- The command with a switch on. -/
def turnOn (c : Command) : Switch → Except Stop Command
  | .showUnresolved => (onceOn c.showUnresolved).map fun b => { c with showUnresolved := b }
  | .verbose => (onceOn c.verbose).map fun b => { c with verbose := b }
  | .quiet => (onceOn c.quiet).map fun b => { c with quiet := b }
  | .help => .error .help
  | .version => .error .version

/-! ### Arguments -/

/-- The byte of `-`. -/
def dash : UInt8 := 45

/-- The byte of `=`. -/
def equals : UInt8 := 61

/-- Whether an argument looks like an option. A dash alone does not. -/
def isOptionLike (a : Argument) : Bool :=
  a.head? == some dash && a ≠ [dash]

/-- What is left to do after the letters of an argument. -/
inductive Cluster where
  /-- Nothing. -/
  | done (c : Command)
  /-- The value of the last option is still to come. -/
  | pending (c : Command) (s : Setting)

/-- Reads the letters of an argument. The first option with a value takes the rest of
the argument for it, without an equals sign at its start. -/
def readLetters (c : Command) : List UInt8 → Except Stop Cluster
  | [] => .ok (.done c)
  | letter :: rest =>
    match ofLetter? letter with
    | none => .error .badArguments
    | some (.switch s) =>
      match turnOn c s with
      | .ok c => readLetters c rest
      | .error stop => .error stop
    | some (.setting s) =>
      match rest with
      | [] => .ok (.pending c s)
      | b :: more => (set c (if b = equals then more else rest) s).map .done

/-- What an argument in the form of an option does, as far as it shows by itself. -/
def readOption (c : Command) (a : Argument) : Except Stop Cluster :=
  match a with
  | _ :: second :: rest =>
    if second = dash then
      let name := rest.takeWhile (· ≠ equals)
      -- A value may follow behind an equals sign, but only for an option that has one.
      match ofLongName? name, rest.drop name.length with
      | some (.switch s), [] => (turnOn c s).map .done
      | some (.setting s), [] => .ok (.pending c s)
      | some (.setting s), _ :: value => (set c value s).map .done
      | _, _ => .error .badArguments
    else readLetters c (second :: rest)
  | _ => .error .badArguments

/-- Reads arguments; after `--` all of them are paths. -/
def readArguments : Bool → Command → List Argument → Except Stop Command
  | _, c, [] => .ok c
  | onlyPaths, c, a :: rest =>
    if !onlyPaths && a == [dash, dash] then readArguments true c rest
    else if !onlyPaths && isOptionLike a then
      match readOption c a with
      | .error stop => .error stop
      | .ok (.done c) => readArguments onlyPaths c rest
      | .ok (.pending c s) =>
        match rest with
        | [] => .error .badArguments
        | value :: rest =>
          -- A forgotten value does not swallow the next option.
          if isOptionLike value then .error .badArguments
          else
            match set c value s with
            | .ok c => readArguments onlyPaths c rest
            | .error stop => .error stop
    else
      match setPath c a with
      | .ok c => readArguments onlyPaths c rest
      | .error stop => .error stop

/-- The command that a command line asks for. -/
def parse (arguments : List Argument) : Except Stop Command :=
  readArguments false {} arguments

/-! ### Texts on request -/

/-- The version. -/
def version : String := "0.1.0"

/-- The lines of the help text. -/
def helpLines : List String :=
  ["A fast CLI tool to find TypeScript source files that nothing imports",
    "",
    "Usage: deadfiles [OPTIONS] [PATH]",
    "",
    "Arguments:",
    "  [PATH]  Path to the directory to scan [default: frontend]",
    "",
    "Options:",
    "  -c, --config <CONFIG>     Path to configuration file",
    "      --vendor-dir <NAME>   Directory name to skip during traversal (matched as a substring)",
    "  -x, --extension <EXT>     Source file extensions to scan (replaces the defaults; can be specified multiple times)",
    "  -e, --entry-point <NAME>  Additional entry-point file names never reported as unused (can be specified multiple times)",
    "  -f, --format <FORMAT>     Output format [possible values: terminal, json]",
    "  -o, --output <OUTPUT>     Output file (for json format)",
    "      --show-unresolved     Also list relative references that matched no file",
    "  -v, --verbose             Verbose output",
    "  -q, --quiet               Quiet mode - only output results",
    "  -h, --help                Print help",
    "  -V, --version             Print version"]

/-- The help text. -/
def help : List Char :=
  helpLines.flatMap fun line => line.toList ++ ['\n']

/-- The line with the version. -/
def versionLine : List Char :=
  ("deadfiles " ++ version ++ "\n").toList

end CommandLine

end Unimported
