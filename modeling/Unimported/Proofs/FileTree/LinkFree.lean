import Unimported.Proofs.FileTree.Lookup
import Unimported.Proofs.Path.Normal

/-!
# `Unimported.Proofs.FileTree.LinkFree`: lookups in a tree without links

Where a tree has no symbolic link, the text of a path decides where the path leads, if
it leads anywhere. The statements:

* `entry_of_all`: a test of all rows of a table is one of all entries; `linkFree_of_all`: a
  table without links is a tree without links.
* `LinkFree.lookupFrom_eq_ok_iff`, `stat_eq_ok_iff_advance`: a lookup is one walk along
  the steps of the path.
* `advance_names`: names lead to the entry that stands at their end.
* `location_of_stat`: a path that names an entry names the one at the place where its
  normal form leads.
-/

set_option autoImplicit false

namespace Unimported

open Unimported.Path

/-- Where a step leads by its text. Places are lists of names, the last one first. -/
def PathStep.follow (place : List (List UInt8)) : PathStep → List (List UInt8)
  | .stay => place
  | .up => place.tail
  | .into bytes => bytes :: place

/-- The steps of a path lead where its components lead, the root left aside. -/
theorem Path.foldl_follow_steps (p : Path) (place : List (List UInt8)) :
    p.steps.foldl PathStep.follow place = p.body.foldl Path.follow place := by
  unfold steps body
  induction p.segments generalizing place with
  | nil => rfl
  | cons segment segments ih =>
    rw [List.map_cons, List.foldl_cons, ih, List.filterMap_cons]
    unfold Component.ofSegment?
    split
    · rfl
    · split <;> rfl

/-- A name that is made of bytes has these bytes. -/
theorem Name.bytes_of_ofBytes? {bytes : List UInt8} {name : Name}
    (h : Name.ofBytes? bytes = some name) : name.bytes = bytes := by
  unfold Name.ofBytes? at h
  split at h
  · cases h
    rfl
  · cases h

/-- Whether an entry is a symbolic link. -/
def Entry.isLink : Entry → Bool
  | link _ => true
  | _ => false

namespace FileTree

/-- Whether no entry of a tree is a symbolic link. -/
def LinkFree (t : FileTree) : Prop :=
  ∀ loc e, t.entryAt loc = some e → e.isLink = false

/-- What holds of a directory and of all rows of the table holds of every entry. -/
theorem entry_of_all {t : FileTree} (holds : Entry → Bool) (hdirectory : holds .directory = true)
    (h : (t.table.toList.all fun row => holds row.2) = true) {loc : Location} {e : Entry}
    (he : t.entryAt loc = some e) : holds e = true := by
  cases loc with
  | nil =>
    cases he
    exact hdirectory
  | cons name above =>
    have hrow := Std.TreeMap.mem_toList_iff_getElem?_eq_some.mpr (table_of_entryAt he)
    exact List.all_eq_true.mp h _ hrow

/-- A tree has no links if its table has none, which can be computed. -/
theorem linkFree_of_all {t : FileTree}
    (h : (t.table.toList.all fun row => !row.2.isLink) = true) : t.LinkFree := by
  intro loc e he
  have hnot := entry_of_all (fun e => !e.isLink) rfl h he
  simpa using hnot

/-- A lookup that ends at an entry ends where its steps lead by their text. -/
theorem location_of_advance {t : FileTree} {loc l : Location} {e : Entry}
    {steps : List PathStep} (h : t.advance loc steps = .ended (.found l e)) :
    l.map Name.bytes = steps.foldl PathStep.follow (loc.map Name.bytes) := by
  induction steps generalizing loc with
  | nil =>
    rw [advance] at h
    split at h <;> cases h
    rfl
  | cons step steps ih =>
    simp only [advance] at h
    split at h
    · cases step with
      | stay => exact ih h
      | up =>
        -- The tail of a location is the directory around it, and of the root the root.
        rw [List.foldl_cons, PathStep.follow, ← List.map_tail]
        exact ih h
      | into bytes =>
        simp only at h
        split at h
        · cases h
        · rename_i name hname
          split at h
          · -- A missing name is vacant at best, and a link is not an end.
            split at h <;> cases h
          · cases h
          · rw [List.foldl_cons, PathStep.follow, ← Name.bytes_of_ofBytes? hname]
            exact ih h
    · cases h
    · cases h

/-- In a tree without links no step comes to one. -/
theorem LinkFree.advance_ne {t : FileTree} (hfree : t.LinkFree) {loc dir : Location}
    {target : Path} {steps rest : List PathStep} :
    t.advance loc steps ≠ .link dir target rest := by
  induction steps generalizing loc with
  | nil =>
    rw [advance]
    split <;> simp
  | cons step steps ih =>
    simp only [advance]
    split
    · cases step with
      | stay => exact ih
      | up => exact ih
      | into bytes =>
        simp only
        split
        · simp
        · split
          · split <;> simp
          · rename_i hlink
            cases hfree _ _ hlink
          · exact ih
    · simp
    · simp

/-- Without links a lookup is one walk along its steps. -/
theorem LinkFree.lookupFrom_eq_ok_iff {t : FileTree} (hfree : t.LinkFree) (links : Nat)
    {loc : Location} {steps : List PathStep} {place : Place} :
    t.lookupFrom links loc steps = .ok place ↔ t.advance loc steps = .ended place := by
  unfold lookupFrom
  split
  · simp_all
  · simp_all
  · rename_i hadvance
    exact absurd hadvance hfree.advance_ne

/-- Names lead from a directory to the entry below it, unless this is a link. -/
theorem advance_names {t : FileTree} {names : List Name} :
    ∀ {loc : Location} {e : Entry}, t.entryAt (names.reverse ++ loc) = some e → e.isLink = false →
      t.advance loc (names.map fun n => .into n.bytes)
        = .ended (.found (names.reverse ++ loc) e) := by
  induction names with
  | nil =>
    intro loc e h _
    rw [List.reverse_nil, List.nil_append] at h ⊢
    simp only [List.map_nil, advance, h]
  | cons name names ih =>
    intro loc e h hlink
    rw [List.reverse_cons, List.append_assoc, List.singleton_append] at h ⊢
    -- The first name is there, since something stands at the end of the names.
    obtain ⟨first, hfirst⟩ := exists_entryAt_of_append h
    simp only [List.map_cons, advance, entryAt_above hfirst, name.ofBytes?_bytes, hfirst]
    cases first with
    | directory => exact ih h hlink
    | file contents => exact ih h hlink
    | link target =>
      -- Only at the end of the names there could be a link.
      cases hnames : names.reverse with
      | nil =>
        rw [hnames, List.nil_append, hfirst] at h
        cases h
        cases hlink
      | cons last above =>
        rw [hnames] at h
        have hdirectory := entryAt_of_append h
        rw [hfirst] at hdirectory
        cases hdirectory

end FileTree

namespace Workspace

/-- In a tree without links a path names what its steps lead to, if it can be asked for at all. -/
theorem stat_eq_ok_iff_advance {w : Workspace} (hfree : w.tree.LinkFree) {p : Path}
    {loc : Location} {e : Entry} :
    w.stat p = .ok (loc, e) ↔
      (0 : UInt8) ∉ p.bytes ∧ p.bytes.length < pathLimit ∧ p ≠ Path.empty ∧
        w.tree.advance (p.startFrom w.current) p.steps = .ended (.found loc e) := by
  rw [stat_eq_ok_iff, locate_eq_ok_iff, hfree.lookupFrom_eq_ok_iff]

/-- A path that names an entry names the one at the place where its normal form leads. -/
theorem location_of_stat {w : Workspace} (hfree : w.tree.LinkFree) {p : Path}
    {loc : Location} {e : Entry} (h : w.stat p = .ok (loc, e)) :
    loc.map Name.bytes = p.normalComponents.foldl follow (w.current.map Name.bytes) := by
  obtain ⟨-, -, -, hadvance⟩ := (stat_eq_ok_iff_advance hfree).mp h
  rw [FileTree.location_of_advance hadvance, foldl_follow_steps, follow_normalComponents,
    components_eq, List.foldl_append]
  -- The steps begin at the root or at the current directory, as the components do.
  unfold startFrom lead
  split
  · rfl
  · split <;> rfl

end Workspace

end Unimported
