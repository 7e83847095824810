import Unimported.Path.Basic

/-!
# `Unimported.Path.Normal`: lexical normal form

A path is normalized by its text alone: `.` is dropped, and `..` takes back the name
before it. No file is consulted, so where a link is crossed the normal form may name
another place than the path does.

- `Path.settle` reads components into a stack, the last one on top.
- `Path.normalize` is the path whose components are that stack's.
- `Path.under?` re-expresses a path relative to a base it starts with.
-/

set_option autoImplicit false

namespace Unimported.Path

/-- Puts a component onto the components already read, the last of which comes
first. `..` takes back a name, is dropped after the root, and is otherwise kept. -/
def settle : List Component → Component → List Component
  | stack, .here => stack
  | .name _ :: below, .up => below
  | .root :: below, .up => .root :: below
  | stack, c => c :: stack

/-- The components that are left once `.` and `..` have been worked off. -/
def normalComponents (p : Path) : List Component :=
  (p.components.foldl settle []).reverse

/-- The lexical normal form of a path. The normal form of the current directory is
the empty path. -/
def normalize (p : Path) : Path :=
  ofComponents p.normalComponents

/-- The rest of `path` after the components of `base`, if it starts with them. -/
def under? (base path : Path) : Option Path :=
  let shared := base.components.length
  if path.components.take shared = base.components then
    some (ofComponents (path.components.drop shared))
  else
    none

end Unimported.Path
