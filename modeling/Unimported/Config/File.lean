import Unimported.Config.OfToml
import Unimported.Config.OfYaml
import Unimported.FileTree.Workspace
import Unimported.Log

/-!
# `Unimported.Config.File`: configuration files

The extension of a configuration file says whether it is YAML or TOML. Any other file is
tried as YAML first and then as TOML.

- `Config.load` reads one file.
- `Config.probe` takes the first file with one of the usual names under a root. If that
  file is broken, every default holds; the files after it are not looked at.
-/

set_option autoImplicit false

namespace Unimported

/-- Why a configuration file gives no configuration. -/
inductive ConfigError where
  /-- The file could not be read. -/
  | unreadable (path : Path) (cause : IoError)
  /-- The file is no YAML document of a configuration. -/
  | notYaml
  /-- The file is no TOML document of a configuration. -/
  | notToml
  /-- The file is neither. -/
  | neither
deriving DecidableEq, Repr

/-- The text of a failure. -/
def ConfigError.message : ConfigError → String
  | unreadable path _ => "Failed to read config file: " ++ path.display
  | notYaml => "Failed to parse YAML config"
  | notToml => "Failed to parse TOML config"
  | neither => "Failed to parse config file"

namespace Config

/-- The languages of configuration files. -/
inductive Language where
  /-- YAML. -/
  | yaml
  /-- TOML. -/
  | toml
  /-- YAML or else TOML. -/
  | either
deriving DecidableEq, Repr

/-- The language of a file, by its extension. -/
def languageOf (p : Path) : Language :=
  match p.extension? with
  | none => .either
  | some bytes =>
    if bytes = Utf8.encode "yml".toList ∨ bytes = Utf8.encode "yaml".toList then .yaml
    else if bytes = Utf8.encode "toml".toList then .toml
    else .either

/-- The configuration that a text holds, as written. -/
def ofText (language : Language) (text : List Char) : Except ConfigError Config :=
  match language with
  | .yaml => (ofYamlText? text).elim (.error .notYaml) .ok
  | .toml => (ofTomlText? text).elim (.error .notToml) .ok
  | .either =>
    match ofYamlText? text with
    | some c => .ok c
    | none => (ofTomlText? text).elim (.error .neither) .ok

/-- The configuration of a file. -/
def load (w : Workspace) (p : Path) : Except ConfigError Config :=
  match w.readText p with
  | .error e => .error (.unreadable p e)
  | .ok text => (ofText (languageOf p) text).map normalized

/-- The names of configuration files in the root of a scan, the first of which
counts. -/
def fileNames : List String :=
  [".deadfiles.yml", ".deadfiles.yaml", ".deadfiles.toml",
    "deadfiles.yml", "deadfiles.yaml", "deadfiles.toml"]

/-- The configuration file under a root. -/
def fileUnder? (w : Workspace) (root : Path) : Option Path :=
  (fileNames.map fun name => root.join (Path.ofString name)).find? w.isFile

/-- The configuration that holds for a root, and the log lines about it. -/
def probe (w : Workspace) (root : Path) : Config × List LogLine :=
  match fileUnder? w root with
  | none => ({}, [])
  | some p =>
    match load w p with
    | .ok c => (c, [])
    | .error _ => ({}, [.warn ("Ignoring config file " ++ p.display)])

end Config

end Unimported
