import Unimported.Toml.Number
import Unimported.Toml.Text

/-!
# `Unimported.Toml.Statement`: the statements of a TOML document

A document is a list of statements: headers of tables, and values for keys. What they
make together is the business of `Unimported.Toml.Table`.

- `Value` is what stands behind an equals sign.
- `value?` reads a value, with at most `mostNested` brackets around each other.
- `statements?` reads a document.
-/

set_option autoImplicit false

namespace Unimported.Toml

/-- A key: its parts, which dots separate. -/
abbrev Key := List (List Char)

/-- A value as written. -/
inductive Value where
  /-- A text. -/
  | text (value : List Char)
  /-- A truth value. -/
  | flag (value : Bool)
  /-- A number. -/
  | number
  /-- A date or a time. -/
  | moment
  /-- A list. -/
  | array (items : List Value)
  /-- A table in braces, with its entries in order. -/
  | inline (entries : List (Key × Value))
deriving Repr

/-- A statement. -/
inductive Statement where
  /-- The header of a table. -/
  | header (key : Key)
  /-- The header of one more table in a list of tables. -/
  | element (key : Key)
  /-- A value for a key. -/
  | entry (key : Key) (value : Value)
deriving Repr

/-- How many brackets or parts of a key may be inside each other; one less is
allowed. -/
def mostNested : Nat := 80

/-! ### Keys -/

/-- Whether a character can stand in a key without quotes. -/
def isBare (c : Char) : Bool :=
  c.isAlphanum || c == '_' || c == '-'

/-- One part of a key, with the blanks around it. -/
def part? : Reader (List Char) := fun text =>
  let text := skipBlanks text
  match text with
  | '"' :: _ | '\'' :: _ => (lineString? text).map fun (p, rest) => (p, skipBlanks rest)
  | _ =>
    let word := text.takeWhile isBare
    if word.isEmpty then none else some (word, skipBlanks (text.drop word.length))

/-- The parts of a key. -/
def partsWithin : Nat → Reader Key
  | 0, _ => none
  | fuel + 1, text =>
    match part? text with
    | none => none
    | some (p, '.' :: rest) => (partsWithin fuel rest).map fun (ps, after) => (p :: ps, after)
    | some (p, rest) => some ([p], rest)

/-- A key, with the blanks around it. -/
def key? : Reader Key := fun text =>
  match partsWithin (text.length + 1) text with
  | some (parts, rest) => if parts.length < mostNested then some (parts, rest) else none
  | none => none

/-! ### Values -/

/-- Whether a character can stand in a word: a number, a date or a name. -/
def isWordChar (c : Char) : Bool :=
  isBare c || c == '+' || c == '.' || c == ':'

/-- The value that a word stands for. -/
def ofWord? (word : List Char) : Option Value :=
  if word = "true".toList then some (.flag true)
  else if word = "false".toList then some (.flag false)
  else if isInteger word || isFloat word then some .number
  else if isMoment word then some .moment
  else none

/-- A number, a date or a name. A date may be followed by a space and a time. -/
def word? : Reader Value := fun text =>
  let word := text.takeWhile isWordChar
  let rest := text.drop word.length
  let time := (rest.drop 1).takeWhile isWordChar
  if isDate word && rest.head? == some ' ' && isTimeWithOffset time then
    some (.moment, rest.drop (1 + time.length))
  else (ofWord? word).map fun v => (v, rest)

mutual

/-- A value, inside `nested` brackets. -/
def valueWithin : Nat → Nat → Reader Value
  | 0, _, _ => none
  | fuel + 1, nested, text =>
    match text with
    | '"' :: _ | '\'' :: _ => (string? text).map fun (s, rest) => (.text s, rest)
    | '[' :: rest =>
      if nested + 1 < mostNested then
        (itemsWithin fuel (nested + 1) rest).map fun (xs, rest) => (.array xs, rest)
      else none
    | '{' :: rest =>
      if nested + 1 < mostNested then
        (entriesWithin fuel (nested + 1) true rest).map fun (xs, rest) => (.inline xs, rest)
      else none
    | _ => word? text

/-- The items of a list and its closing bracket. A comma may follow the last one. -/
def itemsWithin : Nat → Nat → Reader (List Value)
  | 0, _, _ => none
  | fuel + 1, nested, text =>
    let text := skipTrivia text
    match text with
    | ']' :: rest => some ([], rest)
    | _ =>
      match valueWithin fuel nested text with
      | none => none
      | some (x, rest) =>
        match skipTrivia rest with
        | ']' :: rest => some ([x], rest)
        | ',' :: rest => (itemsWithin fuel nested rest).map fun (xs, rest) => (x :: xs, rest)
        | _ => none

/-- The entries of a table in braces and its closing brace, all on one line and without
a comma after the last one. -/
def entriesWithin : Nat → Nat → Bool → Reader (List (Key × Value))
  | 0, _, _, _ => none
  | fuel + 1, nested, first, text =>
    -- Braces may be empty, but no comma stands before the closing one.
    match first, skipBlanks text with
    | true, '}' :: rest => some ([], rest)
    | _, _ =>
      match key? text with
      | some (k, '=' :: rest) =>
        match valueWithin fuel nested (skipBlanks rest) with
        | none => none
        | some (v, rest) =>
          match skipBlanks rest with
          | '}' :: rest => some ([(k, v)], rest)
          | ',' :: rest =>
            (entriesWithin fuel nested false rest).map fun (xs, rest) => ((k, v) :: xs, rest)
          | _ => none
      | _ => none

end

/-- A value. -/
def value? : Reader Value := fun text =>
  valueWithin (2 * text.length + 2) 0 text

/-! ### Statements -/

/-- The text behind the end of a line, which may hold a comment. -/
def endLine? (text : List Char) : Option (List Char) :=
  match skipComment (skipBlanks text) with
  | [] => some []
  | rest => afterBreak? rest

/-- A statement, without the end of its line. -/
def statement? : Reader Statement := fun text =>
  match text with
  | '[' :: '[' :: rest =>
    match key? rest with
    | some (k, ']' :: ']' :: rest) => some (.element k, rest)
    | _ => none
  | '[' :: rest =>
    match key? rest with
    | some (k, ']' :: rest) => some (.header k, rest)
    | _ => none
  | _ =>
    match key? text with
    | some (k, '=' :: rest) =>
      (value? (skipBlanks rest)).map fun (v, rest) => (.entry k v, rest)
    | _ => none

/-- The statements of a document. -/
def statementsWithin : Nat → List Char → Option (List Statement)
  | 0, _ => none
  | fuel + 1, text =>
    match skipTrivia text with
    | [] => some []
    | '#' :: rest => if (endLine? ('#' :: rest)).isSome then some [] else none
    | text =>
      match statement? text with
      | none => none
      | some (s, rest) =>
        match endLine? rest with
        | none => none
        | some rest => (statementsWithin fuel rest).map (s :: ·)

/-- The statements of a document. A mark of the byte order at its start does not
count. -/
def statements? (text : List Char) : Option (List Statement) :=
  let text := if text.head? = some '\ufeff' then text.drop 1 else text
  statementsWithin (text.length + 1) text

end Unimported.Toml
