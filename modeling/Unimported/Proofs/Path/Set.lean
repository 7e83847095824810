import Mathlib.Data.List.Sort
import Unimported.Path.Set
import Unimported.Proofs.Path.Normal

/-!
# `Unimported.Proofs.Path.Set`: members of sets of paths

A set of paths is asked in two ways: whether it contains a place, whatever the
spelling, and which spellings it lists. The statements:

* `key_eq_key_iff`: a place is a list of components.
* `contains_iff_mem_toList`, `contains_ofList`, `contains_foldl_insert`: which places
  a set contains, by how it was made.
* `mem_toList_ofList`: where no place is spelled in two ways, a set lists exactly the
  paths that it was made of.
* `eq_of_mem_iff`: two lists in the order of paths are equal if they have the same
  members, which is how the answers of two scans are compared.
-/

set_option autoImplicit false

namespace Unimported

namespace Path

/-! ### Ranks -/

/-- Components are told by what they are ordered by. -/
theorem component_key_injective {c d : Component} (h : c.key = d.key) : c = d := by
  cases c <;> cases d <;> simp_all [Component.key]
  -- The ranks of two names differ from each other where the bytes do.
  exact List.map_injective_iff.mpr (fun _ _ => UInt8.toNat.inj) h

/-- Two paths have the same rank exactly when they have the same components. -/
theorem key_eq_key_iff {p q : Path} : p.key = q.key ↔ p.components = q.components := by
  constructor
  · exact fun h => List.map_injective_iff.mpr (fun _ _ => component_key_injective) h
  · intro h
    rw [key, key, h]

/-- Two paths are the same in the order exactly if they have the same components. -/
theorem compare_eq_eq_iff {p q : Path} : p.compare q = .eq ↔ p.components = q.components := by
  rw [← key_eq_key_iff, Path.compare]
  exact Std.compare_eq_iff_eq

/-- Two paths count as the same exactly if they have the same components. -/
theorem sameAs_iff {p q : Path} : p.sameAs q = true ↔ p.components = q.components := by
  rw [sameAs, beq_iff_eq, compare_eq_eq_iff]

instance : Std.Irrefl fun p q : Path => p.compare q = .lt where
  irrefl p h := by
    rw [compare_eq_eq_iff.mpr rfl] at h
    cases h

instance : Std.Antisymm fun p q : Path => p.compare q = .lt where
  antisymm p q hpq hqp := by
    unfold Path.compare at hpq hqp
    rw [Std.OrientedOrd.eq_swap, hqp] at hpq
    cases hpq

/-- Two lists in the order of paths are equal if they have the same members. -/
theorem eq_of_mem_iff {ps qs : List Path} (hps : ps.Pairwise fun p q => p.compare q = .lt)
    (hqs : qs.Pairwise fun p q => p.compare q = .lt) (h : ∀ p, p ∈ ps ↔ p ∈ qs) : ps = qs :=
  hps.eq_of_mem_iff hqs h

/-- No place occurs twice in a list in the order of paths. -/
theorem eq_of_components_of_sorted {ps : List Path}
    (hps : ps.Pairwise fun p q => p.compare q = .lt) :
    ∀ p ∈ ps, ∀ q ∈ ps, p.components = q.components → p = q := by
  induction ps with
  | nil => simp
  | cons a ps ih =>
    obtain ⟨hfirst, hrest⟩ := List.pairwise_cons.mp hps
    -- The first path comes strictly before every later one.
    have hne : ∀ r ∈ ps, a.components ≠ r.components := by
      intro r hr heq
      have hlt := hfirst r hr
      rw [compare_eq_eq_iff.mpr heq] at hlt
      cases hlt
    intro p hp q hq hpq
    rcases List.mem_cons.mp hp with hpa | hp' <;> rcases List.mem_cons.mp hq with hqa | hq'
    · rw [hpa, hqa]
    · exact absurd (hpa ▸ hpq) (hne q hq')
    · exact absurd (hqa ▸ hpq.symm) (hne p hp')
    · exact ih hrest p hp' q hq' hpq

end Path

namespace PathSet

open Unimported.Path

/-- A set contains the places of the paths that it lists. -/
theorem contains_iff_mem_toList {s : PathSet} {p : Path} :
    s.contains p = true ↔ ∃ q ∈ s.toList, q.components = p.components := by
  rw [contains, ← Std.TreeMap.isSome_getElem?_eq_contains, Option.isSome_iff_exists]
  constructor
  · rintro ⟨q, hq⟩
    have hkey := s.key_of_getElem? _ _ hq
    exact ⟨q, mem_toList.mpr (hkey ▸ hq), key_eq_key_iff.mp hkey⟩
  · rintro ⟨q, hq, hqp⟩
    exact ⟨q, key_eq_key_iff.mpr hqp ▸ mem_toList.mp hq⟩

/-- The empty set has no paths. -/
theorem contains_empty (p : Path) : PathSet.empty.contains p = false := by
  simp [PathSet.empty, contains]

/-- A set to which paths were added one by one contains their places. -/
theorem contains_foldl_insert (ps : List Path) (s : PathSet) (p : Path) :
    (ps.foldl PathSet.insert s).contains p = true ↔
      s.contains p = true ∨ ∃ q ∈ ps, q.components = p.components := by
  induction ps generalizing s with
  | nil => simp
  | cons q ps ih =>
    rw [List.foldl_cons, ih, contains_insert, Bool.or_eq_true, sameAs_iff]
    simp only [List.mem_cons, exists_eq_or_imp]
    tauto

/-- The set of some paths has exactly these, up to their spelling. -/
theorem contains_ofList (ps : List Path) (p : Path) :
    (ofList ps).contains p = true ↔ ∃ q ∈ ps, q.components = p.components := by
  induction ps with
  | nil => simp [ofList, contains_empty]
  | cons q ps ih =>
    show ((ofList ps).insert q).contains p = true ↔ _
    rw [contains_insert, Bool.or_eq_true, sameAs_iff, ih]
    simp

/-- A set lists no path but those that it was made of. -/
theorem mem_of_mem_toList_ofList {ps : List Path} {p : Path} (h : p ∈ (ofList ps).toList) :
    p ∈ ps := by
  induction ps with
  | nil => simp [ofList, PathSet.empty, toList] at h
  | cons q ps ih =>
    rw [mem_toList] at h
    change ((ofList ps).spellings.insertIfNew q.key q)[p.key]? = some p at h
    rw [Std.TreeMap.getElem?_insertIfNew] at h
    split at h
    · rw [Option.some.inj h]
      exact List.mem_cons_self
    · exact List.mem_cons_of_mem _ (ih (mem_toList.mpr h))

/-- Where no place is spelled in two ways, a set lists the paths that it was made of. -/
theorem mem_toList_ofList {ps : List Path}
    (hps : ∀ p ∈ ps, ∀ q ∈ ps, p.components = q.components → p = q) {p : Path} :
    p ∈ (ofList ps).toList ↔ p ∈ ps := by
  refine ⟨mem_of_mem_toList_ofList, fun hp => ?_⟩
  have hcontains : (ofList ps).contains p = true :=
    (contains_ofList ps p).mpr ⟨p, hp, rfl⟩
  obtain ⟨q, hq, hqp⟩ := contains_iff_mem_toList.mp hcontains
  -- The set may list another spelling of the place, but there is none.
  rw [← hps q (mem_of_mem_toList_ofList hq) p hp hqp]
  exact hq

/-- A list in the order of paths is what the set of its members lists. -/
theorem toList_ofList_of_sorted {ps : List Path}
    (hps : ps.Pairwise fun p q => p.compare q = .lt) : (ofList ps).toList = ps :=
  eq_of_mem_iff (sorted_toList _) hps fun _ =>
    mem_toList_ofList (eq_of_components_of_sorted hps)

end PathSet

end Unimported
