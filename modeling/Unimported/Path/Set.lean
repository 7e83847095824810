import Std.Data.TreeMap.Lemmas
import Unimported.Path.Basic

/-!
# `Unimported.Path.Set`: sets of paths

A set of paths has one spelling of each place: two paths with the same components are
the same member. Its members are kept by rank, so that they can be listed in the order
of paths.

- `PathSet.insert` adds a path, unless another spelling of it is there already.
- `PathSet.ofList` is the set of a list, with the last spelling of each place.
- `PathSet.toList` lists the members; `PathSet.sorted_toList` says that their ranks
  increase strictly.
-/

set_option autoImplicit false

namespace Unimported

/-- A set of paths, as a table from ranks to spellings. -/
structure PathSet where
  /-- The spelling of each member, by its rank. -/
  spellings : Std.TreeMap (List (List Nat)) Path compare
  /-- A spelling is kept under its own rank. -/
  key_of_getElem? : ∀ (k : List (List Nat)) (p : Path), spellings[k]? = some p → p.key = k

namespace PathSet

/-- The set without members. -/
def empty : PathSet := ⟨∅, by simp⟩

/-- The set with one more path, unless another spelling of it is a member. -/
def insert (s : PathSet) (p : Path) : PathSet where
  spellings := s.spellings.insertIfNew p.key p
  key_of_getElem? := by
    intro k q h
    rw [Std.TreeMap.getElem?_insertIfNew] at h
    split at h
    · rename_i hk
      simp only [Option.some.injEq] at h
      rw [← h]
      exact Std.LawfulEqCmp.eq_of_compare hk.1
    · exact s.key_of_getElem? k q h

/-- The set of the paths of a list. Of several spellings of a place the last one
stays. -/
def ofList (paths : List Path) : PathSet :=
  paths.foldr (fun p s => s.insert p) empty

/-- The members, in the order of paths. -/
def toList (s : PathSet) : List Path :=
  s.spellings.toList.map (·.2)

/-- Whether a spelling of this path is a member. -/
def contains (s : PathSet) (p : Path) : Bool :=
  s.spellings.contains p.key

/-- How many members there are. -/
def size (s : PathSet) : Nat :=
  s.spellings.size

/-! ### Laws -/

/-- The members are listed in strictly increasing order. -/
theorem sorted_toList (s : PathSet) :
    s.toList.Pairwise fun p q => p.compare q = .lt := by
  rw [toList, List.pairwise_map]
  refine (s.spellings.ordered_keys_toList).imp_of_mem ?_
  intro a b ha hb hab
  rw [Std.TreeMap.mem_toList_iff_getElem?_eq_some] at ha hb
  rw [Path.compare, s.key_of_getElem? _ _ ha, s.key_of_getElem? _ _ hb]
  exact hab

/-- A path is listed exactly if it is the spelling kept for its place. -/
theorem mem_toList {s : PathSet} {p : Path} :
    p ∈ s.toList ↔ s.spellings[p.key]? = some p := by
  rw [toList, List.mem_map]
  constructor
  · rintro ⟨⟨k, q⟩, h, rfl⟩
    rw [Std.TreeMap.mem_toList_iff_getElem?_eq_some] at h
    rw [s.key_of_getElem? _ _ h]
    exact h
  · intro h
    exact ⟨(p.key, p), Std.TreeMap.mem_toList_iff_getElem?_eq_some.2 h, rfl⟩

/-- A place belongs to a larger set if it is the new one or belonged before. -/
theorem contains_insert (s : PathSet) (p q : Path) :
    (s.insert p).contains q = (p.sameAs q || s.contains q) := by
  simp [insert, contains, Path.sameAs, Path.compare, Std.TreeMap.contains_insertIfNew]

end PathSet

end Unimported
