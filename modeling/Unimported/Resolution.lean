import Unimported.Candidate
import Unimported.FileTree.Workspace

/-!
# `Unimported.Resolution`: which references have a target

A reference is resolved by every path it may mean that exists. The targets are
written as paths from the root, and those outside the root are left out.

- `Reference.existing` are the paths of a reference that exist.
- `resolve` sorts the references of a file into those with a target and those without.
-/

set_option autoImplicit false

namespace Unimported

/-- What became of the references of one file. -/
structure Resolution where
  /-- The targets under the root, as paths from there. -/
  resolved : List Path
  /-- The specifiers without a target, in order. -/
  unresolved : List String
deriving DecidableEq, Repr

/-- The paths that a reference may mean and that exist. -/
def Reference.existing (r : Reference) (w : Workspace) : List Path :=
  r.candidates.filter w.pathExists

/-- A path as seen from the root, if it lies under the root by its text. -/
def fromRoot? (root path : Path) : Option Path :=
  root.normalize.under? path.normalize

/-- The targets of the references, and the references that have none. Of two spellings
of a target the first one stays. -/
def resolve (w : Workspace) (root : Path) (refs : List Reference) : Resolution where
  resolved :=
    ((refs.flatMap fun r => (r.existing w).filterMap (fromRoot? root)).foldl
      PathSet.insert PathSet.empty).toList
  unresolved := (refs.filter fun r => (r.existing w).isEmpty).map (·.specifier)

end Unimported
