import Unimported.Config.Basic
import Unimported.Yaml.Node

/-!
# `Unimported.Config.OfYaml`: configurations in YAML

A document holds a mapping with the fields of a configuration, each of which may be
missing. A text is any scalar, however it is written, and a list or mapping without
contents may be left empty. Keys that mean nothing are passed over, but a field may not
be given twice.

- `Config.ofYaml?` is the configuration of a document.
- `Config.ofYamlText?` is the configuration that a text holds.
-/

set_option autoImplicit false

namespace Unimported.Config

open Unimported.Yaml

namespace YamlField

/-- The text of a node. -/
def text? (d : Document) (n : Node) : Option String :=
  match d.target n with
  | some (.scalar _ _ text) => some (String.ofList text)
  | _ => none

/-- The truth value that a word stands for. -/
def truth? (word : String) : Option Bool :=
  if word = "true" ∨ word = "True" ∨ word = "TRUE" then some true
  else if word = "false" ∨ word = "False" ∨ word = "FALSE" then some false
  else none

/-- The tag of truth values. -/
def truthTag : List Char := "tag:yaml.org,2002:bool".toList

/-- The truth value of a node: a plain scalar, or a literal block with the tag of truth
values. -/
def flag? (d : Document) (n : Node) : Option Bool :=
  match d.target n with
  | some (.scalar .plain _ text) => truth? (String.ofList text)
  | some (.scalar .literal (some tag) text) =>
    if tag = truthTag then truth? (String.ofList text) else none
  | _ => none

/-- The texts of a sequence. -/
def texts? (d : Document) (n : Node) : Option (List String) :=
  match d.target n with
  | some (.sequence items) => items.mapM (text? d)
  | some (.scalar .plain _ []) => some []
  | _ => none

/-- The entries of a mapping, by the texts of their keys. -/
def fields? (d : Document) (n : Node) : Option (List (String × Node)) :=
  match d.target n with
  | some (.mapping entries) =>
    entries.mapM fun (key, value) => (text? d key).map fun k => (k, value)
  | some (.scalar .plain _ []) => some []
  | _ => none

/-- What `read` makes of a field, or `default` if the field is missing. -/
def get? {α : Type} (fields : List (String × Node)) (name : String) (default : α)
    (read : Node → Option α) : Option α :=
  match fields.filter fun f => f.1 == name with
  | [] => some default
  | [(_, value)] => read value
  | _ => none

end YamlField

open YamlField

/-- The report settings of a node. -/
def reportOfYaml? (d : Document) (n : Node) : Option ReportConfig := do
  let fields ← fields? d n
  let default : ReportConfig := {}
  return {
    format := ← get? fields "format" default.format (text? d)
    showUnresolved := ← get? fields "show_unresolved" default.showUnresolved (flag? d) }

/-- The configuration of a document. One without a root has every default. -/
def ofYaml? (d : Document) : Option Config :=
  match d.root with
  | none => some {}
  | some root => do
    let fields ← fields? d root
    let default : Config := {}
    return {
      vendorDir := ← get? fields "vendor_dir" default.vendorDir (text? d)
      extensions := ← get? fields "extensions" default.extensions (texts? d)
      entryPoints := ← get? fields "entry_points" default.entryPoints (texts? d)
      report := ← get? fields "report" default.report (reportOfYaml? d) }

/-- The configuration that a YAML text holds. -/
def ofYamlText? (text : List Char) : Option Config :=
  (Document.ofText? text).bind ofYaml?

end Unimported.Config
