import Unimported.FileTree.Lookup

/-!
# `Unimported.FileTree.Workspace`: a tree and a current directory

What a program sees of the files: every relative path starts in the current
directory.

- `Workspace.stat`, `Workspace.isDir`, `Workspace.isFile` and `Workspace.pathExists`
  ask what a path names, links followed.
- `Workspace.read` and `Workspace.readText` give the contents of a file, and
  `Workspace.list` the entries of a directory, links not followed.
- `Workspace.write` puts contents into a file, which comes into being if its
  directory exists.
-/

set_option autoImplicit false

namespace Unimported

/-- A file tree, seen from a directory in it. -/
structure Workspace where
  /-- The files. -/
  tree : FileTree
  /-- The location of the current directory. -/
  current : Location
deriving Inhabited

namespace Workspace

/-! ### Questions -/

/-- Where a path leads. -/
def locate (w : Workspace) (p : Path) : Except IoError Place :=
  w.tree.locate w.current p

/-- The entry that a path names. -/
def stat (w : Workspace) (p : Path) : Except IoError (Location × Entry) :=
  match w.locate p with
  | .ok (.found loc entry) => .ok (loc, entry)
  | .ok (.vacant _ _) => .error .notFound
  | .error e => .error e

/-- Whether a path names anything. -/
def pathExists (w : Workspace) (p : Path) : Bool :=
  match w.stat p with
  | .ok _ => true
  | .error _ => false

/-- Whether a path names a directory. -/
def isDir (w : Workspace) (p : Path) : Bool :=
  match w.stat p with
  | .ok (_, .directory) => true
  | _ => false

/-- Whether a path names a file. -/
def isFile (w : Workspace) (p : Path) : Bool :=
  match w.stat p with
  | .ok (_, .file _) => true
  | _ => false

/-- The contents of the file that a path names. -/
def read (w : Workspace) (p : Path) : Except IoError (List UInt8) :=
  match w.stat p with
  | .ok (_, .file contents) => .ok contents
  | .ok (_, .directory) => .error .isADirectory
  | .ok (_, .link _) => .error .tooManyLinks
  | .error e => .error e

/-- The text of the file that a path names. -/
def readText (w : Workspace) (p : Path) : Except IoError (List Char) :=
  match w.read p with
  | .ok contents =>
    match Utf8.decode contents with
    | some text => .ok text
    | none => .error .notText
  | .error e => .error e

/-- The entries of the directory that a path names. -/
def list (w : Workspace) (p : Path) : List (Name × Entry) :=
  match w.stat p with
  | .ok (loc, .directory) =>
    (w.tree.namesIn loc).filterMap fun name =>
      (w.tree.entryAt (name :: loc)).map fun entry => (name, entry)
  | _ => []

/-! ### Writing -/

/-- Puts contents into the file that a path names. A file that does not exist yet
comes into being, at the end of the links if the path leads over any. -/
def write (w : Workspace) (p : Path) (contents : List UInt8) :
    Except IoError Workspace :=
  match w.locate p with
  | .ok (.found loc (.file _)) =>
    .ok { w with tree := w.tree.place loc (.file contents) }
  | .ok (.found _ .directory) => .error .isADirectory
  | .ok (.found _ (.link _)) => .error .tooManyLinks
  | .ok (.vacant dir name) =>
    .ok { w with tree := w.tree.place (name :: dir) (.file contents) }
  | .error e => .error e

end Workspace

end Unimported
