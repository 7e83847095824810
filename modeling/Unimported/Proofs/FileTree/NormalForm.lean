import Unimported.Proofs.FileTree.LinkFree

/-!
# `Unimported.Proofs.FileTree.NormalForm`: looking up a normal form

A normal form goes up first and down then. On the way up every location is a directory,
and on the way down every location is one that stands above the end. So, where a tree has
no links, a normal form leads to whatever stands where its components lead. The
statements:

* `steps_ofComponents`: the steps of a path that is written with single slashes.
* `LinkFree.advance_ofComponents`, `stat_ofComponents`: a normal form leads to the entry at
  its end, if there is one.
-/

set_option autoImplicit false

namespace Unimported

open Unimported.Path

/-- Names are told by their bytes. -/
theorem Name.bytes_injective : Function.Injective Name.bytes := by
  rintro ⟨bytes, hname⟩ ⟨bytes', hname'⟩ heq
  obtain rfl : bytes = bytes' := heq
  rfl

/-! ### The steps of a normal form -/

/-- The step that a component takes. -/
def Path.Component.step : Component → PathStep
  | .up => .up
  | .name bytes => .into bytes
  | _ => .stay

/-- Every path has a step, even the empty one. -/
theorem steps_ne_nil (p : Path) : p.steps ≠ [] := by
  rw [steps, segments, ne_eq, List.map_eq_nil_iff]
  exact List.splitOn_ne_nil _ _

/-- Components between slashes are read as their steps. -/
theorem steps_intercalate {cs : List Component} (hne : cs ≠ []) (hcs : ∀ c ∈ cs, c.IsInner) :
    (⟨[slash].intercalate (cs.map Component.bytes)⟩ : Path).steps = cs.map Component.step := by
  rw [steps, segments, splitOn_bytes hne hcs, List.map_map]
  refine List.map_congr_left fun c hc => ?_
  rcases hcs c hc with rfl | ⟨name, ⟨hempty, hdot, hup, -⟩, rfl⟩
  · decide
  · simp [Component.bytes, Component.step, hempty, hdot, hup]

/-- A normal form that is seen from a directory takes one step for each component. -/
theorem steps_ofComponents {cs : List Component} (h : IsNormal cs) (hne : cs ≠ [])
    (hroot : ∀ rest, cs ≠ .root :: rest) : (ofComponents cs).steps = cs.map Component.step := by
  have hbytes : ofComponents cs = ⟨[slash].intercalate (cs.map Component.bytes)⟩ := by
    cases cs with
    | nil => rfl
    | cons c cs => cases c <;> simp_all [ofComponents]
  rw [hbytes, steps_intercalate hne (up_or_name_of_isNormal h hroot)]

/-- A normal form that is seen from the root stays there at first. -/
theorem steps_ofComponents_root {names : List (List UInt8)} (h : ∀ n ∈ names, IsPlain n) :
    (ofComponents (.root :: names.map .name)).steps
      = .stay :: if names = [] then [.stay] else names.map .into := by
  have hbytes : (ofComponents (.root :: names.map .name)).bytes
      = [] ++ slash :: [slash].intercalate ((names.map Component.name).map Component.bytes) := rfl
  have hstay : (⟨[]⟩ : Path).steps = [.stay] := by decide
  rw [Workspace.steps_of_bytes_append hbytes, hstay, List.singleton_append]
  split
  · rename_i hnil
    rw [hnil]
    exact congrArg _ hstay
  · rename_i hne
    rw [steps_intercalate (by simpa using hne)
      (up_or_name_of_isNormal (isNormal_names h) (by cases names <;> simp)), List.map_map]
    rfl

/-! ### Lookups -/

namespace FileTree

variable {t : FileTree}

/-- Everywhere above a directory there are directories. -/
theorem entryAt_drop {loc : Location} (h : t.entryAt loc = some .directory) (ups : Nat) :
    t.entryAt (loc.drop ups) = some .directory := by
  induction ups generalizing loc with
  | zero => exact h
  | succ ups ih =>
    cases loc with
    | nil => rfl
    | cons name above => exact ih (entryAt_above h)

/-- Every step asks for a directory. -/
theorem advance_of_not_directory {loc : Location} (h : t.entryAt loc ≠ some .directory)
    (step : PathStep) (rest : List PathStep) :
    ∃ error, t.advance loc (step :: rest) = .failed error := by
  simp only [advance]
  split
  · exact absurd ‹_› h
  · exact ⟨_, rfl⟩
  · exact ⟨_, rfl⟩

/-- The way up from a directory. -/
theorem advance_ups {loc : Location} (h : t.entryAt loc = some .directory) (ups : Nat)
    (more : List PathStep) :
    t.advance loc (List.replicate ups .up ++ more) = t.advance (loc.drop ups) more := by
  induction ups generalizing loc with
  | zero => rfl
  | succ ups ih =>
    have habove : t.entryAt loc.tail = some .directory := by
      rw [← List.drop_one]
      exact entryAt_drop h 1
    rw [List.replicate_succ, List.cons_append]
    simp only [advance, h]
    rw [ih habove, List.drop_tail]

/-- The way down to an entry. -/
theorem LinkFree.advance_down (hfree : t.LinkFree) {loc l : Location} {e : Entry}
    {names : List (List UInt8)} (hl : l.map Name.bytes = names.reverse ++ loc.map Name.bytes)
    (he : t.entryAt l = some e) : t.advance loc (names.map .into) = .ended (.found l e) := by
  obtain ⟨below, place, rfl, hbelow, hplace⟩ := List.map_eq_append_iff.mp hl
  obtain rfl := List.map_injective_iff.mpr Name.bytes_injective hplace
  have hnames : names = below.reverse.map Name.bytes := by
    rw [List.map_reverse, hbelow, List.reverse_reverse]
  rw [hnames, List.map_map]
  rw [← below.reverse_reverse] at he ⊢
  rw [List.reverse_reverse]
  exact advance_names he (hfree _ _ he)

/-- A normal form leads to the entry at its end. -/
theorem LinkFree.advance_ofComponents (hfree : t.LinkFree) {cs : List Component}
    (hcs : IsNormal cs) (hne : cs ≠ []) {start l : Location} {e : Entry}
    (hstart : (ofComponents cs).isAbsolute = true ∨ t.entryAt start = some .directory)
    (hl : l.map Name.bytes = cs.foldl follow (start.map Name.bytes))
    (he : t.entryAt l = some e) :
    t.advance ((ofComponents cs).startFrom start) (ofComponents cs).steps
      = .ended (.found l e) := by
  obtain ⟨names, hnames, rfl | ⟨ups, rfl⟩⟩ := id hcs
  · have habs : (ofComponents (.root :: names.map .name)).isAbsolute = true :=
      isAbsolute_iff.mpr ⟨_, rfl⟩
    rw [List.foldl_cons, foldl_follow_names, follow] at hl
    have hdown : t.advance [] (names.map .into) = .ended (.found l e) := hfree.advance_down hl he
    rw [startFrom, if_pos habs, steps_ofComponents_root hnames]
    split
    · rename_i hnil
      rwa [hnil] at hdown
    · exact hdown
  · have hroot : .root ∉ List.replicate ups Component.up ++ names.map .name := by simp
    have hrelative := isAbsolute_ofComponents hcs hroot
    rw [List.foldl_append, foldl_follow_names, foldl_follow_ups, ← List.map_drop] at hl
    rw [startFrom, if_neg (by simp [hrelative]), steps_ofComponents hcs hne (fun rest heq =>
      hroot (heq ▸ List.mem_cons_self ..)), List.map_append, List.map_replicate, List.map_map]
    have hdirectory := hstart.resolve_left (by simp [hrelative])
    exact (advance_ups hdirectory ups _).trans (hfree.advance_down hl he)

end FileTree

namespace Workspace

/-- A path that names anything is absolute, or it is seen from a directory. -/
theorem start_of_stat {w : Workspace} {p : Path} {r : Location × Entry} (h : w.stat p = .ok r) :
    p.isAbsolute = true ∨ w.tree.entryAt w.current = some .directory := by
  refine or_iff_not_imp_left.mpr fun hrelative => ?_
  obtain ⟨-, -, -, hlookup⟩ := locate_eq_ok_iff.mp (stat_eq_ok_iff.mp h)
  rw [startFrom, if_neg hrelative] at hlookup
  obtain ⟨step, rest, hsteps⟩ := List.exists_cons_of_ne_nil (steps_ne_nil p)
  by_contra hnot
  obtain ⟨error, hfailed⟩ := FileTree.advance_of_not_directory hnot step rest
  rw [hsteps, FileTree.lookupFrom, hfailed] at hlookup
  cases hlookup

/-- A normal form that can be looked up names the entry at its end. -/
theorem stat_ofComponents {w : Workspace} (hfree : w.tree.LinkFree)
    {cs : List Component} (hcs : IsNormal cs) (hne : cs ≠ []) {l : Location} {e : Entry}
    (hcurrent : (ofComponents cs).isAbsolute = true ∨
      w.tree.entryAt w.current = some .directory)
    (hl : l.map Name.bytes = cs.foldl follow (w.current.map Name.bytes))
    (he : w.tree.entryAt l = some e) (hzero : (0 : UInt8) ∉ (ofComponents cs).bytes)
    (hlimit : (ofComponents cs).bytes.length < pathLimit) :
    w.stat (ofComponents cs) = .ok (l, e) := by
  rw [stat_eq_ok_iff_advance hfree]
  refine ⟨hzero, hlimit, fun hempty => hne ?_, hfree.advance_ofComponents hcs hne hcurrent hl he⟩
  rw [← components_ofComponents hcs, hempty]
  decide

end Workspace

end Unimported
