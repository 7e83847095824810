import Unimported.Config.Basic
import Unimported.Toml.Table

/-!
# `Unimported.Config.OfToml`: configurations in TOML

A document is a table with the fields of a configuration, each of which may be missing.
Values have the type that the field asks for. The settings of the report are a table, or
a list of them in order, of which the tail may be missing. Keys that mean nothing are
passed over.

- `Config.ofToml?` is the configuration of a table.
- `Config.ofTomlText?` is the configuration that a text holds.
-/

set_option autoImplicit false

namespace Unimported.Config

open Unimported.Toml

namespace TomlField

/-- The text of an item. -/
def text? : Item → Option String
  | .text s => some (String.ofList s)
  | _ => none

/-- The truth value of an item. -/
def flag? : Item → Option Bool
  | .flag b => some b
  | _ => none

/-- The texts of a list. -/
def texts? : Item → Option (List String)
  | .array items => items.mapM text?
  | _ => none

/-- What `read` makes of an item, or `default` if there is none. -/
def orElse? {α : Type} (item : Option Item) (default : α) (read : Item → Option α) :
    Option α :=
  match item with
  | none => some default
  | some i => read i

/-- What `read` makes of a field, or `default` if the field is missing. -/
def get? {α : Type} (entries : Entries) (name : String) (default : α)
    (read : Item → Option α) : Option α :=
  orElse? (entries.lookup name.toList) default read

end TomlField

open TomlField

/-- The report settings of a format and a flag. -/
def reportOfItems? (format showUnresolved : Option Item) : Option ReportConfig := do
  let default : ReportConfig := {}
  return {
    format := ← orElse? format default.format text?
    showUnresolved := ← orElse? showUnresolved default.showUnresolved flag? }

/-- The report settings of an item. A date is a table of its own, with no field that
means anything here. -/
def reportOfToml? : Item → Option ReportConfig
  | .table _ entries =>
    reportOfItems? (entries.lookup "format".toList)
      (entries.lookup "show_unresolved".toList)
  | .moment => some {}
  | .array items => reportOfItems? items[0]? items[1]?
  | _ => none

/-- The configuration of a table. -/
def ofToml? (entries : Entries) : Option Config := do
  let default : Config := {}
  return {
    vendorDir := ← get? entries "vendor_dir" default.vendorDir text?
    extensions := ← get? entries "extensions" default.extensions texts?
    entryPoints := ← get? entries "entry_points" default.entryPoints texts?
    report := ← get? entries "report" default.report reportOfToml? }

/-- The configuration that a TOML text holds. -/
def ofTomlText? (text : List Char) : Option Config :=
  (Toml.ofText? text).bind ofToml?

end Unimported.Config
