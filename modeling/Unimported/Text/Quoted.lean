import Unimported.Text.Printable

/-!
# `Unimported.Text.Quoted`: quoted values in log lines

- `Quoted.text` writes a text in double quotes, with everything that cannot be shown as
  it is in the form of an escape sequence.
- `Quoted.texts` writes a list of texts.
-/

set_option autoImplicit false

namespace Unimported.Quoted

/-- How a character stands between quotes. -/
def escapeChar (c : Char) : List Char :=
  if c = '"' then ['\\', '"']
  else if c = '\\' then ['\\', '\\']
  else if c = '\x00' then ['\\', '0']
  else if c = '\t' then ['\\', 't']
  else if c = '\n' then ['\\', 'n']
  else if c = '\r' then ['\\', 'r']
  else if isPrintable c then [c]
  else '\\' :: 'u' :: '\x7b' :: Nat.toDigits 16 c.toNat ++ ['\x7d']

/-- A text in quotes. -/
def text (value : String) : String :=
  String.ofList ('"' :: value.toList.flatMap escapeChar ++ ['"'])

/-- A list of texts in brackets. -/
def texts (values : List String) : String :=
  "[" ++ ", ".intercalate (values.map text) ++ "]"

end Unimported.Quoted
