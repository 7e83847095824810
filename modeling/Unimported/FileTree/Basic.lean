import Std.Data.TreeMap.Lemmas
import Unimported.Path.Basic

/-!
# `Unimported.FileTree.Basic`: trees of files

A file tree is a table of entries by location. The location of an entry is the list
of names that leads to it, its own name first, so that the directory around a location
is its tail and the root is the empty list. Entries are directories, files and links,
and there are no permissions: every directory can be listed, and every file read.

- `FileTree.entryAt` is the one view on a tree: what is at a location. It answers only
  where every location around is a directory, so rows of the table that hang in the air
  are not part of the tree.
- `FileTree.namesIn` lists a directory.
- `FileTree.place`, `FileTree.remove` and `FileTree.move` change a tree.
-/

set_option autoImplicit false

namespace Unimported

/-- The longest name that a directory entry may have, in bytes. -/
def longestName : Nat := 255

/-- Whether bytes can be the name of a directory entry. -/
def isEntryName (bytes : List UInt8) : Bool :=
  bytes ≠ [] && bytes ≠ [Path.dot] && bytes ≠ [Path.dot, Path.dot] &&
    bytes.length ≤ longestName && bytes.all fun b => b ≠ Path.slash && b ≠ 0

/-- The name of a directory entry. -/
structure Name where
  /-- The bytes of the name. -/
  bytes : List UInt8
  /-- A name is neither empty nor `.` nor `..`, is not too long, and has neither a
  slash nor a zero byte. -/
  isEntryName : isEntryName bytes = true
deriving DecidableEq, Repr

namespace Name

/-- The name with these bytes, if they can be one. -/
def ofBytes? (bytes : List UInt8) : Option Name :=
  if h : Unimported.isEntryName bytes = true then some ⟨bytes, h⟩ else none

/-- The path of one component. -/
def path (n : Name) : Path := ⟨n.bytes⟩

/-- Names are ordered byte by byte. -/
instance : Ord Name := ⟨fun m n => compare m.bytes n.bytes⟩

instance : Std.TransOrd Name where
  eq_swap {m n} := by
    show compare m.bytes n.bytes = (compare n.bytes m.bytes).swap
    exact Std.OrientedOrd.eq_swap
  isLE_trans {l m n} := by
    show (compare l.bytes m.bytes).isLE → (compare m.bytes n.bytes).isLE →
      (compare l.bytes n.bytes).isLE
    exact Std.TransOrd.isLE_trans

instance : Std.LawfulEqOrd Name where
  eq_of_compare {m n} h := by
    obtain ⟨mb, hm⟩ := m
    obtain ⟨nb, hn⟩ := n
    have : mb = nb := Std.LawfulEqOrd.eq_of_compare h
    subst this
    rfl

end Name

/-- Where an entry is: its name, the name of the directory around it, and so on up to
the root. -/
abbrev Location := List Name

/-- Where a location comes to be when the entry at `source` moves to `destination`. -/
def Location.relocate (source destination loc : Location) : Location :=
  if source.isSuffixOf loc then
    loc.take (loc.length - source.length) ++ destination
  else loc

/-- What a directory can hold under a name. -/
inductive Entry where
  /-- A directory. -/
  | directory
  /-- A file with its contents. -/
  | file (contents : List UInt8)
  /-- A symbolic link with the path it stands for. -/
  | link (target : Path)
deriving DecidableEq, Repr

/-- A tree of files. -/
structure FileTree where
  /-- The entries by location. -/
  table : Std.TreeMap Location Entry compare
deriving Inhabited

namespace FileTree

/-- The tree with nothing in it but the root. -/
def empty : FileTree := ⟨∅⟩

/-- What is at a location. The root is a directory. -/
def entryAt (t : FileTree) : Location → Option Entry
  | [] => some .directory
  | name :: above =>
    match t.entryAt above with
    | some .directory => t.table[name :: above]?
    | _ => none

/-- The names that have an entry in the directory at a location. -/
def namesIn (t : FileTree) (loc : Location) : List Name :=
  t.table.keys.filterMap fun l =>
    match l with
    | [] => none
    | name :: above => if above = loc ∧ (t.entryAt l).isSome then some name else none

/-- How many directories can be nested in the tree. -/
def depth (t : FileTree) : Nat :=
  t.table.keys.foldl (fun d l => max d l.length) 0

/-! ### Changes -/

/-- The tree without the entry at a location and what is below it. -/
def remove (t : FileTree) (loc : Location) : FileTree :=
  ⟨t.table.filter fun l _ => !loc.isSuffixOf l⟩

/-- The tree with this entry at a location, and nothing below it. -/
def place (t : FileTree) (loc : Location) (entry : Entry) : FileTree :=
  ⟨(t.remove loc).table.insert loc entry⟩

/-- The tree in which the entry at `source`, with all that is below it, has taken the
place of what was at `destination`. -/
def move (t : FileTree) (source destination : Location) : FileTree :=
  -- The moved rows are taken from the old tree, since both places are cleared first.
  let moved := t.table.toList.filter fun row => source.isSuffixOf row.1
  ⟨moved.foldl
    (fun table row => table.insert (Location.relocate source destination row.1) row.2)
    ((t.remove source).remove destination).table⟩

end FileTree

end Unimported
