import Unimported.Proofs.Path.Set
import Unimported.Reachability
import Unimported.Resolution

/-!
# `Unimported.Proofs.Reachability`: targets and the files without an import

From the references of single files to the files that no reference meets. The
statements:

* `mem_resolved_iff`: what a file has for a target is what one of its references may
  mean, exists, and lies under the root by its text.
* `resolve_congr`: only what exists in a workspace matters for references.
* `contains_reachable`: a place is reachable exactly if some file has it for a target.
* `mem_unused_iff`: a candidate is unused unless it is reachable or an entry point.
-/

set_option autoImplicit false

namespace Unimported

open Unimported.Path

/-! ### Targets of one file -/

/-- A path is seen from the root as the components that its normal form has behind
those of the root. -/
theorem fromRoot?_eq_some_iff {root path : Path} {cs : List Component} :
    (∃ p, fromRoot? root path = some p ∧ p.components = cs) ↔
      path.normalComponents = root.normalComponents ++ cs := by
  unfold fromRoot? under?
  simp only [components_normalize]
  have hdrop : IsNormal (path.normalComponents.drop root.normalComponents.length) :=
    isNormal_drop (isNormal_normalComponents path) _
  constructor
  · rintro ⟨p, hp, rfl⟩
    split at hp
    · rename_i htake
      cases hp
      rw [components_ofComponents hdrop]
      conv_lhs => rw [← List.take_append_drop root.normalComponents.length path.normalComponents]
      rw [htake]
    · cases hp
  · intro heq
    have htake : path.normalComponents.take root.normalComponents.length
        = root.normalComponents := by
      rw [heq, List.take_left]
    refine ⟨_, if_pos htake, ?_⟩
    rw [components_ofComponents hdrop, heq, List.drop_left]

/-- The targets of a file: what its references may mean, as far as it exists and lies
under the root. -/
theorem mem_resolved_iff {w : Workspace} {root : Path} {refs : List Reference}
    {cs : List Component} :
    (∃ p ∈ (resolve w root refs).resolved, p.components = cs) ↔
      ∃ r ∈ refs, ∃ q ∈ r.candidates, w.pathExists q = true ∧
        q.normalComponents = root.normalComponents ++ cs := by
  unfold resolve
  constructor
  · rintro ⟨p, hp, rfl⟩
    -- The set may list another spelling of a target, at the same place.
    have hcontains := PathSet.contains_iff_mem_toList.mpr ⟨p, hp, rfl⟩
    rw [PathSet.contains_foldl_insert, PathSet.contains_empty] at hcontains
    obtain ⟨p', hp', heq⟩ := hcontains.resolve_left (by simp)
    obtain ⟨r, hr, hmem⟩ := List.mem_flatMap.mp hp'
    obtain ⟨q, hq, hroot⟩ := List.mem_filterMap.mp hmem
    obtain ⟨hcandidate, hexists⟩ := List.mem_filter.mp hq
    exact ⟨r, hr, q, hcandidate, hexists, fromRoot?_eq_some_iff.mp ⟨p', hroot, heq⟩⟩
  · rintro ⟨r, hr, q, hq, hexists, hcs⟩
    obtain ⟨p, hroot, rfl⟩ := fromRoot?_eq_some_iff.mpr hcs
    apply PathSet.contains_iff_mem_toList.mp
    rw [PathSet.contains_foldl_insert]
    refine Or.inr ⟨p, List.mem_flatMap.mpr ⟨r, hr, ?_⟩, rfl⟩
    exact List.mem_filterMap.mpr ⟨q, List.mem_filter.mpr ⟨hq, hexists⟩, hroot⟩

/-- What becomes of references depends on a workspace only through what exists there. -/
theorem resolve_congr {w w' : Workspace} {root : Path} {refs : List Reference}
    (h : ∀ r ∈ refs, ∀ q ∈ r.candidates, w'.pathExists q = w.pathExists q) :
    resolve w' root refs = resolve w root refs := by
  have hexisting : ∀ r ∈ refs, r.existing w' = r.existing w :=
    fun r hr => List.filter_congr (h r hr)
  have hresolved : (refs.flatMap fun r => (r.existing w').filterMap (fromRoot? root))
      = refs.flatMap fun r => (r.existing w).filterMap (fromRoot? root) :=
    List.flatMap_congr fun r hr => by rw [hexisting r hr]
  have hunresolved : (refs.filter fun r => (r.existing w').isEmpty)
      = refs.filter fun r => (r.existing w).isEmpty :=
    List.filter_congr fun r hr => by rw [hexisting r hr]
  rw [resolve, resolve, hresolved, hunresolved]

/-! ### Targets of all files -/

/-- The table of targets has the rows of the list, as long as no file has two. -/
theorem Targets.mem_toList_ofList {rows : List (Path × List Path)}
    (hrows : rows.Pairwise fun r r' => r.1.components ≠ r'.1.components)
    {k : List (List Nat)} {targets : List Path} :
    (k, targets) ∈ (Targets.ofList rows).toList ↔
      ∃ r ∈ rows, r.1.key = k ∧ r.2 = targets := by
  rw [Std.TreeMap.mem_toList_iff_getElem?_eq_some]
  -- The rows are put in from first to last, so the induction is on the end of the list.
  induction rows using List.reverseRecOn with
  | nil => simp [Targets.ofList]
  | append_singleton rows r ih =>
    obtain ⟨hbefore, -, hnew⟩ := List.pairwise_append.mp hrows
    have hstep : Targets.ofList (rows ++ [r]) = (Targets.ofList rows).insert r.1.key r.2 := by
      simp [Targets.ofList]
    rw [hstep, Std.TreeMap.getElem?_insert]
    by_cases hk : r.1.key = k
    · -- The row of the file itself: no earlier row has its rank.
      rw [if_pos (Std.compare_eq_iff_eq.mpr hk)]
      constructor
      · intro h
        exact ⟨r, by simp, hk, Option.some.inj h⟩
      · rintro ⟨r', hr', hk', rfl⟩
        rcases List.mem_append.mp hr' with hr' | hr'
        · exact absurd (key_eq_key_iff.mp (hk'.trans hk.symm)) (hnew r' hr' r (by simp))
        · rw [List.mem_singleton.mp hr']
    · rw [if_neg fun heq => hk (Std.compare_eq_iff_eq.mp heq), ih hbefore]
      simp [or_and_right, exists_or, hk]

/-- A place is reachable exactly if some file has it for a target. -/
theorem contains_reachable {rows : List (Path × List Path)}
    (hrows : rows.Pairwise fun r r' => r.1.components ≠ r'.1.components) {p : Path} :
    (reachable (Targets.ofList rows)).contains p = true ↔
      ∃ r ∈ rows, ∃ q ∈ r.2, q.components = p.components := by
  rw [reachable, PathSet.contains_ofList]
  constructor
  · rintro ⟨q, hq, heq⟩
    obtain ⟨⟨k, targets⟩, hmem, hq⟩ := List.mem_flatMap.mp hq
    obtain ⟨r, hr, -, rfl⟩ := (Targets.mem_toList_ofList hrows).mp hmem
    exact ⟨r, hr, q, hq, heq⟩
  · rintro ⟨r, hr, q, hq, heq⟩
    have hmem := (Targets.mem_toList_ofList hrows).mpr ⟨r, hr, rfl, rfl⟩
    exact ⟨q, List.mem_flatMap.mpr ⟨_, hmem, hq⟩, heq⟩

/-! ### Files without an import -/

/-- A file is unused if it is no entry point and no file leads to it. -/
theorem mem_unused_iff {c : Config} {candidates : List Path} {all : Targets} {p : Path} :
    p ∈ unused c candidates all ↔
      p ∈ candidates ∧ c.isEntryPoint p = false ∧ (reachable all).contains p = false := by
  simp only [unused, unreferenced, List.mem_filter, Bool.not_eq_true']
  tauto

/-- The unused files stand in the order of all files. -/
theorem unused_sublist (c : Config) (candidates : List Path) (all : Targets) :
    (unused c candidates all).Sublist candidates :=
  List.filter_sublist.trans List.filter_sublist

end Unimported
