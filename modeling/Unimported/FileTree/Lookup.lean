import Unimported.FileTree.Basic

/-!
# `Unimported.FileTree.Lookup`: finding what a path names

A path is looked up one step after the other: a name leads into a directory, `..` out
of it, and a symbolic link is replaced by the path it stands for. This is not what
the text of the path suggests: `a/..` is another directory than `.` where `a` is a
link.

- `FileTree.advance` goes on until the path ends, fails, or meets a link.
- `FileTree.lookupFrom` puts the targets of links in, up to `mostLinks` of them.
- `IoError.message` has the text of each failure.
-/

set_option autoImplicit false

namespace Unimported

/-- Why a file could not be found or read. -/
inductive IoError where
  /-- Nothing has this name. -/
  | notFound
  /-- The path goes on behind something that is no directory. -/
  | notADirectory
  /-- A directory stands where a file was asked for. -/
  | isADirectory
  /-- A name or the whole path is too long. -/
  | nameTooLong
  /-- The path leads through too many symbolic links. -/
  | tooManyLinks
  /-- The path has a zero byte. -/
  | zeroByte
  /-- The contents are not UTF-8. -/
  | notText
deriving DecidableEq, Repr

/-- The text of a failure. -/
def IoError.message : IoError → String
  | notFound => "No such file or directory (os error 2)"
  | notADirectory => "Not a directory (os error 20)"
  | isADirectory => "Is a directory (os error 21)"
  | nameTooLong => "File name too long (os error 36)"
  | tooManyLinks => "Too many levels of symbolic links (os error 40)"
  | zeroByte => "file name contained an unexpected NUL byte"
  | notText => "stream did not contain valid UTF-8"

/-- A path must be shorter than this, in bytes. -/
def pathLimit : Nat := 4096

/-- How many symbolic links one lookup follows. -/
def mostLinks : Nat := 40

/-- One step of a lookup. -/
inductive PathStep where
  /-- Stay; `.` and the text before a repeated or trailing slash. Like any step it
  asks for a directory. -/
  | stay
  /-- Go to the directory around. -/
  | up
  /-- Go to the entry of this name. -/
  | into (name : List UInt8)
deriving DecidableEq, Repr

/-- The steps that a path takes. -/
def Path.steps (p : Path) : List PathStep :=
  p.segments.map fun segment =>
    if segment = [] ∨ segment = [Path.dot] then .stay
    else if segment = [Path.dot, Path.dot] then .up
    else .into segment

/-- Where a path starts that is seen from the directory at `loc`. -/
def Path.startFrom (p : Path) (loc : Location) : Location :=
  if p.isAbsolute then [] else loc

/-- Where a lookup ends. -/
inductive Place where
  /-- At an entry that is no link. -/
  | found (loc : Location) (entry : Entry)
  /-- In a directory that has no entry of the last name. -/
  | vacant (dir : Location) (name : Name)
deriving DecidableEq, Repr

namespace FileTree

/-- How far a lookup comes without following a link. -/
inductive Advance where
  /-- To the end of the path. -/
  | ended (place : Place)
  /-- To a link in the directory `dir`, with steps still to go. -/
  | link (dir : Location) (target : Path) (rest : List PathStep)
  /-- Nowhere. -/
  | failed (error : IoError)
deriving DecidableEq, Repr

/-- Takes steps until the path ends, fails, or meets a link. -/
def advance (t : FileTree) : Location → List PathStep → Advance
  | loc, [] =>
    match t.entryAt loc with
    | some entry => .ended (.found loc entry)
    | none => .failed .notFound
  | loc, step :: rest =>
    match t.entryAt loc with
    | some .directory =>
      match step with
      | .stay => t.advance loc rest
      | .up => t.advance loc.tail rest
      | .into bytes =>
        match Name.ofBytes? bytes with
        | none => .failed .nameTooLong
        | some name =>
          match t.entryAt (name :: loc) with
          -- Only the last name may be missing: something could be put there.
          | none => if rest = [] then .ended (.vacant loc name) else .failed .notFound
          | some (.link target) => .link loc target rest
          | some _ => t.advance (name :: loc) rest
    | some _ => .failed .notADirectory
    | none => .failed .notFound

/-- Takes steps from a directory, following at most `links` links. -/
def lookupFrom (t : FileTree) (links : Nat) (loc : Location) (steps : List PathStep) :
    Except IoError Place :=
  match t.advance loc steps with
  | .ended place => .ok place
  | .failed error => .error error
  | .link dir target rest =>
    match links with
    | 0 => .error .tooManyLinks
    | links + 1 =>
      -- A target is seen from the directory of its link.
      if target = Path.empty then .error .notFound
      else t.lookupFrom links (target.startFrom dir) (target.steps ++ rest)

/-- Looks up a path from the directory at `loc`. -/
def locate (t : FileTree) (loc : Location) (p : Path) : Except IoError Place :=
  if p.bytes.contains 0 then .error .zeroByte
  else if pathLimit ≤ p.bytes.length then .error .nameTooLong
  else if p = Path.empty then .error .notFound
  else t.lookupFrom mostLinks (p.startFrom loc) p.steps

end FileTree

end Unimported
