/-!
# `Unimported.Text.Infix`: one text inside another

- `isInfixOf` decides whether a text occurs anywhere in another.
- `isInfixOf_iff`: it holds exactly when the text is an infix.
-/

set_option autoImplicit false

namespace Unimported

/-- Whether `needle` occurs in a text. -/
def isInfixOf (needle : List Char) : List Char → Bool
  | [] => needle.isEmpty
  | c :: rest => needle.isPrefixOf (c :: rest) || isInfixOf needle rest

/-- The search finds a text exactly where it is part of the other one. -/
theorem isInfixOf_iff {needle text : List Char} :
    isInfixOf needle text = true ↔ needle <:+: text := by
  induction text with
  | nil => simp [isInfixOf]
  | cons c rest ih => simp [isInfixOf, ih, List.infix_cons_iff]

end Unimported
