/-!
# `Unimported.Text.Blank`: white space

The characters that Unicode gives the property `White_Space`. The class that Lean's
core calls white space holds four of them.

- `isBlank` says which characters these are.
-/

set_option autoImplicit false

namespace Unimported

/-- The code points with the property `White_Space`, as ranges with both ends
included. -/
def blankRanges : List (Nat × Nat) :=
  [(0x9, 0xD), (0x20, 0x20), (0x85, 0x85), (0xA0, 0xA0), (0x1680, 0x1680),
    (0x2000, 0x200A), (0x2028, 0x2029), (0x202F, 0x202F), (0x205F, 0x205F),
    (0x3000, 0x3000)]

/-- Whether a character is white space. -/
def isBlank (c : Char) : Bool :=
  blankRanges.any fun (low, high) => low ≤ c.toNat && c.toNat ≤ high

end Unimported
