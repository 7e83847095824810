import Unimported.Config.Basic
import Unimported.FileTree.Workspace
import Unimported.Path.Set

/-!
# `Unimported.Discovery`: the source files under a root

A scan looks at every file under its root whose name ends in one of the extensions,
hidden files included. It goes into every directory whose path is not a vendor path,
but through no symbolic link below the root.

- `SourceFile` is a file with its path from the root.
- `walk` collects the source files below a directory.
- `discover` says what is found under a root, or why nothing is looked for.
-/

set_option autoImplicit false

namespace Unimported

/-- A source file under a root. -/
structure SourceFile where
  /-- The path from the root. -/
  relative : Path
  /-- The path by which the file is read. -/
  path : Path
deriving DecidableEq, Repr

namespace SourceFile

/-- The file under `root` with a path from there. -/
def under (root relative : Path) : SourceFile :=
  ⟨relative, root.join relative⟩

/-- The directory of the file, as a path from the root. -/
def directory (f : SourceFile) : Path :=
  f.relative.parent?.getD Path.empty

end SourceFile

/-- What a scan finds under a root. -/
inductive Discovery where
  /-- The root is no directory. -/
  | notADirectory
  /-- The root itself is a vendor path. -/
  | vendorRoot
  /-- The source files, in the order of their paths. -/
  | files (found : List SourceFile)
deriving DecidableEq, Repr

namespace Discovery

/-- The source files that were found. -/
def sourceFiles : Discovery → List SourceFile
  | files found => found
  | _ => []

end Discovery

/-- The source files below the directory `dir`, as paths from the root, where
`relative` is the path of `dir` itself. At most `depth` directories deep. -/
def walk (w : Workspace) (c : Config) : Nat → Path → Path → List Path
  | 0, _, _ => []
  | depth + 1, dir, relative =>
    (w.list dir).flatMap fun (name, entry) =>
      let path := dir.join name.path
      let fromRoot := relative.join name.path
      -- Files are not tested: those below a vendor directory are never come to.
      if entry = .directory && c.isVendorPath path then []
      else
        -- A link to a directory is followed here, so it is not collected.
        let own :=
          if !w.isDir path && c.isSourceName name.path.chars then [fromRoot] else []
        match entry with
        | .directory => own ++ walk w c depth path fromRoot
        | _ => own

/-- The path that a walk takes for standard input instead of a directory, in every
spelling with this one component. -/
def standardInput : Path := Path.ofString "-"

/-- What a scan finds under `root`. -/
def discover (w : Workspace) (c : Config) (root : Path) : Discovery :=
  if !w.isDir root then .notADirectory
  else if c.isVendorPath root then .vendorRoot
  else if root.sameAs standardInput then .files []
  else
    .files ((PathSet.ofList (walk w c (w.tree.depth + 1) root Path.empty)).toList.map
      (SourceFile.under root))

end Unimported
