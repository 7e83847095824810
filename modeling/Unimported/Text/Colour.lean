/-!
# `Unimported.Text.Colour`: coloured text

A style is switched on by an escape sequence and off by another one, which switches
off every style at once. Text that ends a style of its own inside a coloured text is
therefore followed by the outer style again.

- `Style.paint` puts a text into a style.
-/

set_option autoImplicit false

namespace Unimported

/-- A style of text on a terminal. -/
inductive Style where
  /-- Bold green. -/
  | good
  /-- Bold yellow. -/
  | notice
  /-- Cyan. -/
  | name
  /-- Dimmed. -/
  | aside
deriving DecidableEq, Repr

namespace Style

/-- The sequence that switches every style off. -/
def off : List Char := ['\x1b', '[', '0', 'm']

/-- The sequence that switches a style on. -/
def on : Style → List Char
  | good => '\x1b' :: "[1;32m".toList
  | notice => '\x1b' :: "[1;33m".toList
  | name => '\x1b' :: "[36m".toList
  | aside => '\x1b' :: "[2m".toList

/-- A text in which each end of a style is followed by `opening`. -/
def resume (opening : List Char) : List Char → List Char
  | '\x1b' :: '[' :: '0' :: 'm' :: rest => off ++ opening ++ resume opening rest
  | c :: rest => c :: resume opening rest
  | [] => []

/-- A text in a style, if there is colour. -/
def paint (style : Style) (colour : Bool) (text : List Char) : List Char :=
  if colour then style.on ++ resume style.on text ++ off else text

end Style

end Unimported
