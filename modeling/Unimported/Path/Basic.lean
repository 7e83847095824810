import Unimported.Text.Utf8

/-!
# `Unimported.Path.Basic`: paths

A path is the byte string as it was written. What it names is decided by its
components, and two paths with the same components are the same place in every set
of paths, however they are spelled.

- `Path.components` cuts a path at its slashes. Repeated slashes, a trailing slash
  and an inner `.` leave no component; a leading `.` does.
- `Path.compare` orders paths by their components: the root first, then `.`, `..`
  and names, names byte by byte. So `a/b.ts` comes before `a-b.ts`.
- `Path.join`, `Path.parent?`, `Path.fileName?` and `Path.extension?` take paths
  apart and put them together without looking at any file.
-/

set_option autoImplicit false

namespace Unimported

/-- A path as written: any bytes, of which `/` separates components. -/
structure Path where
  /-- The bytes as written. -/
  bytes : List UInt8
deriving DecidableEq, Repr, Inhabited

namespace Path

/-- The byte of `/`. -/
def slash : UInt8 := 47

/-- The byte of `.`. -/
def dot : UInt8 := 46

/-- The path with this text. -/
def ofChars (text : List Char) : Path :=
  ⟨Utf8.encode text⟩

/-- The path with this text. -/
def ofString (text : String) : Path :=
  ofChars text.toList

/-- The text of a path as shown to a reader. -/
def chars (p : Path) : List Char :=
  Utf8.decodeLossy p.bytes

/-- The text of a path as shown to a reader. -/
def display (p : Path) : String :=
  String.ofList p.chars

/-- The path without any byte. It names nothing on disk, and is the lexical normal
form of the current directory. -/
def empty : Path := ⟨[]⟩

/-- Whether a path starts at the root. -/
def isAbsolute (p : Path) : Bool :=
  p.bytes.head? == some slash

/-! ### Components -/

/-- A component of a path. -/
inductive Component where
  /-- The root, which only an absolute path has. -/
  | root
  /-- The current directory, `.`, kept only at the start of a relative path. -/
  | here
  /-- The parent directory, `..`. -/
  | up
  /-- A name. -/
  | name (bytes : List UInt8)
deriving DecidableEq, Repr

namespace Component

/-- The component that stands between two slashes, if it is one. -/
def ofSegment? (segment : List UInt8) : Option Component :=
  if segment = [] ∨ segment = [dot] then none
  else if segment = [dot, dot] then some up
  else some (name segment)

/-- How a component is written. -/
def bytes : Component → List UInt8
  | root => [slash]
  | here => [dot]
  | up => [dot, dot]
  | name bs => bs

/-- The rank of a component in the order of paths. -/
def key : Component → List Nat
  | root => [0]
  | here => [1]
  | up => [2]
  | name bs => 3 :: bs.map UInt8.toNat

/-- Whether a component is a name. -/
def isName : Component → Bool
  | name _ => true
  | _ => false

end Component

/-- The bytes between the slashes of a path. -/
def segments (p : Path) : List (List UInt8) :=
  p.bytes.splitOn slash

/-- The components of a path. -/
def components (p : Path) : List Component :=
  if p.isAbsolute then
    .root :: p.segments.filterMap Component.ofSegment?
  else if p.segments.head? = some [dot] then
    -- This `.` leaves no component among the segments, so it is put in front of them.
    .here :: p.segments.filterMap Component.ofSegment?
  else
    p.segments.filterMap Component.ofSegment?

/-- The path that is written with these components and single slashes. -/
def ofComponents : List Component → Path
  | .root :: rest => ⟨slash :: [slash].intercalate (rest.map Component.bytes)⟩
  | cs => ⟨[slash].intercalate (cs.map Component.bytes)⟩

/-! ### Order -/

/-- The rank of a path: the ranks of its components. -/
def key (p : Path) : List (List Nat) :=
  p.components.map Component.key

/-- The order of paths, component by component. -/
protected def compare (p q : Path) : Ordering :=
  Ord.compare p.key q.key

/-- Whether two paths have the same components. -/
def sameAs (p q : Path) : Bool :=
  Path.compare p q == .eq

/-! ### Joining and taking apart -/

/-- `q` as seen from the directory `p`: `q` itself if it is absolute, and otherwise
`p`, a slash unless one is there already or `p` is empty, and `q`. -/
def join (p q : Path) : Path :=
  if q.isAbsolute then q
  else if p.bytes = [] ∨ p.bytes.getLast? = some slash then ⟨p.bytes ++ q.bytes⟩
  else ⟨p.bytes ++ slash :: q.bytes⟩

/-- The path with `suffix` written after it, without a slash between. -/
def append (p : Path) (suffix : List UInt8) : Path :=
  ⟨p.bytes ++ suffix⟩

/-- The last component, if it is a name. -/
def fileName? (p : Path) : Option (List UInt8) :=
  match p.components.getLast? with
  | some (.name bs) => some bs
  | _ => none

/-- The segments without those at the end that leave no component, which are the
empty ones and `.`. -/
def trimIdle (segments : List (List UInt8)) : List (List UInt8) :=
  (segments.reverse.dropWhile fun s => s == [] || s == [dot]).reverse

/-- The path without its last component, spelled as before. The root and the empty
path have no parent, and the parent of a lone component is the empty path. -/
def parent? (p : Path) : Option Path :=
  match p.segments with
  | [] => none
  | first :: others =>
    match trimIdle others with
    | [] => if first = [] then none else some empty
    | kept =>
      -- What is idle in front of the last component goes with it.
      let above := [slash].intercalate (trimIdle kept.dropLast)
      if p.isAbsolute then some ⟨slash :: above⟩
      else if above = [] then some ⟨first⟩
      else some ⟨first ++ slash :: above⟩

/-- The part of the last component after its last dot. A name without a dot, or with
none but a leading one, has no extension. -/
def extension? (p : Path) : Option (List UInt8) :=
  match p.fileName? with
  | none => none
  | some name =>
    match (name.splitOn dot).reverse with
    -- The stem is empty and alone where the only dot is a leading one.
    | last :: stem :: more => if stem = [] ∧ more = [] then none else some last
    | _ => none

end Path

end Unimported
