import Unimported.Toml.Statement

/-!
# `Unimported.Toml.Table`: the table that a document describes

A table can be made by a header, by the header of a table inside it, by a key with
dots, or by braces. What may be added to it later depends on which of these it was.

- `Item` is what a table holds under a name.
- `edit?` changes the table that a key leads to and makes the ones that are missing.
- `ofStatements?` carries out the statements of a document, and refuses those that give
  a name twice.
-/

set_option autoImplicit false

namespace Unimported.Toml

/-- How a table has come about. -/
inductive Origin where
  /-- By its own header, or as the document itself. -/
  | header
  /-- By the header of a table inside it. -/
  | implied
  /-- By a key with dots. -/
  | dotted
  /-- By braces. -/
  | inline
deriving DecidableEq, Repr

/-- What a table holds under a name. -/
inductive Item where
  /-- A text. -/
  | text (value : List Char)
  /-- A truth value. -/
  | flag (value : Bool)
  /-- A number. -/
  | number
  /-- A date or a time. -/
  | moment
  /-- A list. -/
  | array (items : List Item)
  /-- A table. -/
  | table (origin : Origin) (entries : List (List Char × Item))
  /-- A list of tables with headers, the last one first. -/
  | tables (elements : List (List (List Char × Item)))
deriving Repr

/-- What a table holds, by name. -/
abbrev Entries := List (List Char × Item)

namespace Entries

/-- The entries with another item under a name, or with a new one at the end. -/
def set (name : List Char) (item : Item) : Entries → Entries
  | [] => [(name, item)]
  | (n, i) :: rest => if n = name then (name, item) :: rest else (n, i) :: set name item rest

/-- Changes the table that a key leads to. Tables that are missing come about as `made`.
A list of tables leads to its last one. A key with dots cannot lead through a table with
a header of its own, and nothing leads into braces, except from inside them. -/
def edit? (made : Origin) (change : Origin → Entries → Option Entries) :
    Key → Origin → Entries → Option Entries
  | [], origin, entries => change origin entries
  | name :: more, _, entries =>
    match entries.lookup name with
    | none =>
      (edit? made change more made []).map fun sub => entries.set name (.table made sub)
    | some (.table origin sub) =>
      if origin = .inline ∨ (made = .dotted ∧ origin = .header) then none
      else
        (edit? made change more origin sub).map fun sub =>
          entries.set name (.table origin sub)
    | some (.tables (last :: others)) =>
      (edit? made change more .header last).map fun last =>
        entries.set name (.tables (last :: others))
    | some _ => none

/-- Adds an item under a name that is still free. Behind a key with dots the table must
itself have come about by one. -/
def add? (dotted : Bool) (name : List Char) (item : Item) (origin : Origin)
    (entries : Entries) : Option Entries :=
  if dotted ≠ (origin == .dotted) then none
  else
    match entries.lookup name with
    | none => some (entries.set name item)
    | some _ => none

/-- Gives a key an item. -/
def addAt? (key : Key) (item : Item) (entries : Entries) : Option Entries :=
  match key.getLast? with
  | none => none
  | some name =>
    let path := key.dropLast
    edit? .dotted (add? (!path.isEmpty) name item) path .header entries

/-- Makes the table of a header, unless one is there that has a header already or is no
table with headers. -/
def openTable? (name : List Char) (_ : Origin) (entries : Entries) : Option Entries :=
  match entries.lookup name with
  | none => some (entries.set name (.table .header []))
  | some (.table .implied sub) => some (entries.set name (.table .header sub))
  | some _ => none

/-- Adds a table to a list of tables. -/
def openElement? (name : List Char) (_ : Origin) (entries : Entries) : Option Entries :=
  match entries.lookup name with
  | none => some (entries.set name (.tables [[]]))
  | some (.tables elements) => some (entries.set name (.tables ([] :: elements)))
  | some _ => none

end Entries

/-! ### Carrying out statements -/

mutual

/-- The item that a value stands for, if its tables give no name twice. -/
def Item.ofValue? : Value → Option Item
  | .text s => some (.text s)
  | .flag b => some (.flag b)
  | .number => some .number
  | .moment => some .moment
  | .array items => (Item.ofValues? items).map .array
  | .inline entries => (Item.ofEntries? [] entries).map (.table .inline)

/-- The items that values stand for. -/
def Item.ofValues? : List Value → Option (List Item)
  | [] => some []
  | v :: vs =>
    match Item.ofValue? v, Item.ofValues? vs with
    | some x, some xs => some (x :: xs)
    | _, _ => none

/-- The entries of a table in braces, added to those before them. -/
def Item.ofEntries? (before : Entries) : List (Key × Value) → Option Entries
  | [] => some before
  | (key, v) :: rest =>
    match Item.ofValue? v with
    | none => none
    | some x =>
      match before.addAt? key x with
      | none => none
      | some entries => Item.ofEntries? entries rest

end

/-- A document under way: its table, and the key of the header that was last. -/
structure Draft where
  /-- The table of the document. -/
  entries : Entries := []
  /-- The key of the table that is being filled. -/
  current : Key := []

namespace Draft

/-- Carries out a statement. -/
def perform? (d : Draft) : Statement → Option Draft
  | .header key =>
    match key.getLast? with
    | none => none
    | some name =>
      (d.entries.edit? .implied (Entries.openTable? name) key.dropLast .header).map
        fun entries => ⟨entries, key⟩
  | .element key =>
    match key.getLast? with
    | none => none
    | some name =>
      (d.entries.edit? .implied (Entries.openElement? name) key.dropLast .header).map
        fun entries => ⟨entries, key⟩
  | .entry key v =>
    match Item.ofValue? v with
    | none => none
    | some item =>
      (d.entries.edit? .implied (fun _ entries => entries.addAt? key item) d.current
        .header).map fun entries => { d with entries }

end Draft

/-- The table that statements describe. -/
def ofStatements? (statements : List Statement) : Option Entries :=
  (statements.foldlM Draft.perform? {}).map (·.entries)

/-- The table that a text describes. -/
def ofText? (text : List Char) : Option Entries :=
  (statements? text).bind ofStatements?

end Unimported.Toml
