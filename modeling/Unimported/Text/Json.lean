/-!
# `Unimported.Text.Json`: JSON text

Values of JSON and their text, with two spaces of indentation for each level and one
element on a line.

- `Json.escape` writes a text between quotes: the quote, the backslash and the control
  characters below `U+0020` are escaped, all else stands for itself.
- `Json.render` writes a value.
-/

set_option autoImplicit false

namespace Unimported

/-- A JSON value of the kinds that reports need. -/
inductive Json where
  /-- A text. -/
  | text (value : String)
  /-- A count. -/
  | count (value : Nat)
  /-- A list. -/
  | list (items : List Json)
  /-- An object with its fields in order. -/
  | object (fields : List (String × Json))
deriving Repr

namespace Json

/-- The lower-case hexadecimal digit of a number below 16. -/
def hexDigit (n : Nat) : Char :=
  if n < 10 then Char.ofNat (48 + n) else Char.ofNat (87 + n)

/-- How a character stands between quotes. -/
def escapeChar (c : Char) : List Char :=
  if c = '"' then ['\\', '"']
  else if c = '\\' then ['\\', '\\']
  else if c = '\n' then ['\\', 'n']
  else if c = '\r' then ['\\', 'r']
  else if c = '\t' then ['\\', 't']
  else if c.toNat = 8 then ['\\', 'b']
  else if c.toNat = 12 then ['\\', 'f']
  else if c.toNat < 32 then
    ['\\', 'u', '0', '0', hexDigit (c.toNat / 16), hexDigit (c.toNat % 16)]
  else [c]

/-- How a text stands between quotes. -/
def escape (text : List Char) : List Char :=
  text.flatMap escapeChar

/-- A text between quotes. -/
def quote (text : List Char) : List Char :=
  '"' :: escape text ++ ['"']

/-- The start of a line at a level of nesting. -/
def newLine (level : Nat) : List Char :=
  '\n' :: List.replicate (2 * level) ' '

mutual

/-- The text of a value at a level of nesting. -/
def renderAt (level : Nat) : Json → List Char
  | text value => quote value.toList
  | count value => Nat.toDigits 10 value
  | list [] => ['[', ']']
  | list (item :: items) =>
    '[' :: newLine (level + 1) ++ renderAt (level + 1) item ++
      renderItems (level + 1) items ++ newLine level ++ [']']
  | object [] => ['{', '}']
  | object ((name, value) :: fields) =>
    '{' :: newLine (level + 1) ++ quote name.toList ++ [':', ' '] ++
      renderAt (level + 1) value ++ renderFields (level + 1) fields ++
      newLine level ++ ['}']

/-- The text of the items of a list after its first one. -/
def renderItems (level : Nat) : List Json → List Char
  | [] => []
  | item :: items =>
    ',' :: newLine level ++ renderAt level item ++ renderItems level items

/-- The text of the fields of an object after its first one. -/
def renderFields (level : Nat) : List (String × Json) → List Char
  | [] => []
  | (name, value) :: fields =>
    ',' :: newLine level ++ quote name.toList ++ [':', ' '] ++ renderAt level value ++
      renderFields level fields

end

/-- The text of a value. -/
def render (value : Json) : List Char :=
  renderAt 0 value

end Json

end Unimported
