import Unimported.Config.Basic
import Unimported.Path.Set

/-!
# `Unimported.Reachability`: which files nothing imports

- `reachable` is the union of the targets of all files.
- `unreferenced` are the candidates outside it, and `unused` those of them that are
  not entry points.
-/

set_option autoImplicit false

namespace Unimported

/-- The targets of each file, by the rank of the file. -/
abbrev Targets := Std.TreeMap (List (List Nat)) (List Path) compare

/-- The targets of each file in a list; of two rows for a file the later one counts. -/
def Targets.ofList (rows : List (Path × List Path)) : Targets :=
  rows.foldl (fun all (file, targets) => all.insert file.key targets) ∅

/-- The paths that some file has for a target. -/
def reachable (all : Targets) : PathSet :=
  PathSet.ofList (all.toList.flatMap (·.2))

/-- The candidates that are no target of any file. -/
def unreferenced (candidates : List Path) (all : Targets) : List Path :=
  let targets := reachable all
  candidates.filter fun p => !targets.contains p

/-- The candidates that are neither a target of any file nor an entry point. -/
def unused (c : Config) (candidates : List Path) (all : Targets) : List Path :=
  (unreferenced candidates all).filter fun p => !c.isEntryPoint p

end Unimported
