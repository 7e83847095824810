import Unimported.FileTree.Workspace

/-!
# `Unimported.FileTree.Edit`: making, removing and renaming entries

The changes that a user makes between two runs of the program, each of which the
system may refuse.

- `Workspace.putFile`, `Workspace.putDir` and `Workspace.putLink` make an entry, and
  the directories around it where they are missing. A refusal leaves the directories
  behind that were made before it.
- `Workspace.removePath` and `Workspace.rename` act on the entry itself, also where it
  is a link. A refusal leaves everything as it was.
- `Workspace.enter` changes the current directory.
-/

set_option autoImplicit false

namespace Unimported.Workspace

/-- Whether a path is written with a slash at its end. -/
def endsInSlash (p : Path) : Bool :=
  p.bytes.getLast? == some Path.slash

/-- Where the entry stands that a path names with its last component, the link itself
if it is one. There is none for a path that ends in `.` or `..`; slashes at the end do
not count. -/
def entryPlace (w : Workspace) (p : Path) : Option Place :=
  if p.bytes.contains 0 ∨ pathLimit ≤ p.bytes.length then none
  else
    match p.segments.reverse.dropWhile (· == []) with
    | [] => none
    | last :: _ =>
      match Name.ofBytes? last with
      | none => none
      | some name =>
        -- The steps to the directory around: without the slashes at the end and the name.
        let around := ((p.steps.reverse.dropWhile (· == .stay)).drop 1).reverse
        match w.tree.lookupFrom mostLinks (p.startFrom w.current) around with
        | .ok (.found loc .directory) =>
          match w.tree.entryAt (name :: loc) with
          | some entry => some (.found (name :: loc) entry)
          | none => some (.vacant loc name)
        | _ => none

/-- The workspace with this entry at a location. -/
def place (w : Workspace) (loc : Location) (entry : Entry) : Workspace :=
  { w with tree := w.tree.place loc entry }

/-! ### Making entries -/

/-- What a change has come to: the workspace with the change, or the one that is left
where the change was refused. -/
abbrev Change := Except Workspace Workspace

/-- Makes one directory, in a directory that exists. -/
def makeDir (w : Workspace) (p : Path) : Option Workspace :=
  match w.entryPlace p with
  | some (.vacant dir name) => some (w.place (name :: dir) .directory)
  | _ => none

/-- Whether the directory that a path names is there after all, once it could not be
made. -/
def settleDir (w : Workspace) (p : Path) : Change :=
  if w.isDir p then .ok w else .error w

/-- Makes a directory and, where they are missing, the directories around it, of which
it looks at `depth` at most. -/
def makeDirsWithin (w : Workspace) : Nat → Path → Change
  | 0, _ => .error w
  | depth + 1, p =>
    if p = Path.empty then .ok w
    else
      match w.makeDir p with
      | some made => .ok made
      | none =>
        -- Only a missing directory around it is worth another try.
        match w.stat p, p.parent? with
        | .error .notFound, some above =>
          match w.makeDirsWithin depth above with
          | .ok around =>
            match around.makeDir p with
            | some made => .ok made
            | none => around.settleDir p
          | .error left => .error left
        | _, _ => w.settleDir p

/-- Makes a directory and, where they are missing, the directories around it. One that
exists already will do. -/
def putDir (w : Workspace) (p : Path) : Change :=
  w.makeDirsWithin (p.segments.length + 1) p

/-- Makes the directories around a path where they are missing. -/
def putAround (w : Workspace) (p : Path) : Change :=
  match p.parent? with
  | some above => w.putDir above
  | none => .ok w

/-- Makes a file, or replaces the contents of the file that the path names. -/
def putFile (w : Workspace) (p : Path) (contents : List UInt8) : Change :=
  match w.putAround p with
  | .error left => .error left
  | .ok around =>
    match around.write p contents with
    | .ok written => .ok written
    | .error _ => .error around

/-- Whether a path can be the target of a link. -/
def isLinkTarget (target : Path) : Bool :=
  target ≠ Path.empty && !target.bytes.contains 0 && target.bytes.length < pathLimit

/-- Makes a symbolic link where nothing is yet. -/
def putLink (w : Workspace) (p target : Path) : Change :=
  match w.putAround p with
  | .error left => .error left
  | .ok around =>
    match around.entryPlace p with
    | some (.vacant dir name) =>
      if isLinkTarget target && !endsInSlash p then
        .ok (around.place (name :: dir) (.link target))
      else .error around
    | _ => .error around

/-! ### Removing and renaming -/

/-- Removes what a path names, a directory with all that is in it. -/
def removePath (w : Workspace) (p : Path) : Option Workspace :=
  match w.entryPlace p with
  | some (.found loc entry) =>
    if endsInSlash p ∧ entry ≠ .directory then none
    else some { w with tree := w.tree.remove loc }
  | _ => none

/-- Whether an entry can take the place that another has: a directory the place of an
empty directory, and anything else the place of anything that is no directory. -/
def canReplace (w : Workspace) (entry : Entry) : Place → Bool
  | .vacant _ _ => true
  | .found loc .directory => entry = .directory && (w.tree.namesIn loc).isEmpty
  | .found _ _ => entry ≠ .directory

/-- The location that a place has or would get. -/
def placeLocation : Place → Location
  | .found loc _ => loc
  | .vacant dir name => name :: dir

/-- Gives an entry, with all that is in it, a new name and place. -/
def rename (w : Workspace) (source destination : Path) : Option Workspace :=
  match w.entryPlace source, w.entryPlace destination with
  | some (.found src entry), some target =>
    let dst := placeLocation target
    if (endsInSlash source ∨ endsInSlash destination) ∧ entry ≠ .directory then none
    -- A name for itself changes nothing, but no directory goes into itself.
    else if dst = src then some w
    else if src.isSuffixOf dst || !w.canReplace entry target then none
    else some ⟨w.tree.move src dst, Location.relocate src dst w.current⟩
  | _, _ => none

/-- Makes the directory that a path names the current one. -/
def enter (w : Workspace) (p : Path) : Option Workspace :=
  match w.stat p with
  | .ok (loc, .directory) => some { w with current := loc }
  | _ => none

end Unimported.Workspace
