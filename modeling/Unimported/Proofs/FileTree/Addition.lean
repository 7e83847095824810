import Mathlib.Data.List.Infix
import Unimported.Proofs.FileTree.Contents

/-!
# `Unimported.Proofs.FileTree.Addition`: a tree with one more file

A new file comes with the directories around it that are missing, and nothing else
changes. So whatever could be looked up before is still found at the same place; a link
that led nowhere may lead somewhere now. The statements:

* `AddsFile.entryAt_cases`: what stands at a location of the larger tree.
* `AddsFile.advance`, `AddsFile.lookupFrom`: lookups that succeeded end where they did.
* `stat_of_addsFile`, `isDir_of_addsFile`, `pathExists_of_addsFile`, `readText_of_addsFile`,
  `mem_list_of_addsFile`: what a workspace still says about a path.
* `addsFile_addFile`: a file can be added wherever there is room.
-/

set_option autoImplicit false

namespace Unimported

namespace FileTree

/-- Whether the tree `t'` is `t` with a new file at a location, and with the directories
around it that were missing. -/
structure AddsFile (t t' : FileTree) (loc : Location) (contents : List UInt8) : Prop where
  /-- Nothing has been at the location. -/
  vacant : t.entryAt loc = none
  /-- The file is there. -/
  added : t'.entryAt loc = some (.file contents)
  /-- Everything else is as it was. -/
  kept : ∀ other e, t.entryAt other = some e → t'.entryAt other = some e
  /-- Nothing is new but the file and what is around it. -/
  only : ∀ other, ¬other <:+ loc → t'.entryAt other = t.entryAt other

namespace AddsFile

variable {t t' : FileTree} {loc : Location} {contents : List UInt8}

/-- What stands at a location has been there, or it is the new file, or a directory made
for it. -/
theorem entryAt_cases (h : t.AddsFile t' loc contents) {other : Location} {e : Entry}
    (he : t'.entryAt other = some e) :
    t.entryAt other = some e ∨ (other = loc ∧ e = .file contents) ∨
      (other ≠ loc ∧ other <:+ loc ∧ t.entryAt other = none ∧ e = .directory) := by
  cases hold : t.entryAt other with
  | some e' =>
    rw [h.kept other e' hold] at he
    exact Or.inl he
  | none =>
    by_cases hsuffix : other <:+ loc
    · by_cases heq : other = loc
      · rw [heq, h.added] at he
        exact Or.inr (Or.inl ⟨heq, (Option.some.inj he).symm⟩)
      · -- Above the new file there are directories.
        obtain ⟨below, rfl⟩ := hsuffix
        cases below with
        | nil => exact absurd rfl heq
        | cons name below =>
          rw [entryAt_of_append h.added] at he
          exact Or.inr (Or.inr ⟨heq, List.suffix_append _ _, rfl, (Option.some.inj he).symm⟩)
    · rw [h.only other hsuffix, hold] at he
      cases he

/-- A tree without links has none after a file is added. -/
theorem linkFree (h : t.AddsFile t' loc contents) (hfree : t.LinkFree) : t'.LinkFree := by
  intro other e he
  rcases h.entryAt_cases he with hold | ⟨-, rfl⟩ | ⟨-, -, -, rfl⟩
  · exact hfree other e hold
  · rfl
  · rfl

/-- Steps that led to an entry or to a link lead there still. -/
theorem advance (h : t.AddsFile t' loc contents) {start : Location} {steps : List PathStep} :
    (∀ {l : Location} {e : Entry}, t.advance start steps = .ended (.found l e) →
      t'.advance start steps = .ended (.found l e)) ∧
    (∀ {dir : Location} {target : Path} {rest : List PathStep},
      t.advance start steps = .link dir target rest →
      t'.advance start steps = .link dir target rest) := by
  induction steps generalizing start with
  | nil =>
    simp only [FileTree.advance]
    cases hstart : t.entryAt start with
    | none => simp
    | some e => simp [h.kept start e hstart]
  | cons step steps ih =>
    simp only [FileTree.advance]
    cases hstart : t.entryAt start with
    | none => simp
    | some e =>
      rw [h.kept start e hstart]
      cases e with
      | file bytes => simp
      | link target => simp
      | directory =>
        cases step with
        | stay => exact ih
        | up => exact ih
        | into bytes =>
          simp only
          cases Name.ofBytes? bytes with
          | none => simp
          | some name =>
            simp only
            cases hnext : t.entryAt (name :: start) with
            | none =>
              -- At a vacant place a lookup has found nothing.
              constructor
              · intro l e hfound
                simp only at hfound
                split at hfound <;> cases hfound
              · intro dir target rest hlink
                simp only at hlink
                split at hlink <;> cases hlink
            | some e =>
              rw [h.kept _ e hnext]
              cases e with
              | link target => simp
              | directory => exact ih
              | file bytes => exact ih

/-- A lookup that ended at an entry ends there still, links followed. -/
theorem lookupFrom (h : t.AddsFile t' loc contents) (links : Nat) {start l : Location} {e : Entry}
    {steps : List PathStep} (hfound : t.lookupFrom links start steps = .ok (.found l e)) :
    t'.lookupFrom links start steps = .ok (.found l e) := by
  rw [FileTree.lookupFrom_eq_ok_iff] at hfound
  induction hfound with
  | ended hended => exact FileTree.lookupFrom_of_ended (h.advance.1 hended)
  | link hlink htarget _ ih =>
    exact (FileTree.lookupFrom_of_link (h.advance.2 hlink) htarget).trans ih

end AddsFile

/-! ### Adding a file -/

/-- Whether a file can be added at a location: nothing is there, and everything around it
is a directory or missing. -/
def HasRoomAt (t : FileTree) (loc : Location) : Prop :=
  t.entryAt loc = none ∧ ∀ around ∈ loc.tails, (t.entryAt around).all (· = .directory)

instance (t : FileTree) (loc : Location) : Decidable (t.HasRoomAt loc) :=
  inferInstanceAs (Decidable (_ ∧ _))

/-- The tree with directories at a location and above it, where nothing was. -/
def withDirectories (t : FileTree) : Location → FileTree
  | [] => t
  | name :: above =>
    let around := t.withDirectories above
    if around.entryAt (name :: above) = none then around.place (name :: above) .directory
    else around

/-- The tree with a file at a location, and with the directories around it. -/
def addFile (t : FileTree) (loc : Location) (contents : List UInt8) : FileTree :=
  (t.withDirectories loc.tail).place loc (.file contents)

/-- No location is around itself. -/
theorem not_cons_suffix (name : Name) (above : Location) : ¬(name :: above) <:+ above := by
  intro hsuffix
  have hlength := hsuffix.length_le
  rw [List.length_cons] at hlength
  omega

/-- Making directories changes nothing but the locations around, and there every entry is a
directory. -/
theorem entryAt_withDirectories {t : FileTree} {loc : Location}
    (h : ∀ around, around <:+ loc → (t.entryAt around).all (· = .directory)) (other : Location) :
    (t.withDirectories loc).entryAt other
      = if other <:+ loc then some .directory else t.entryAt other := by
  induction loc generalizing other with
  | nil =>
    by_cases hother : other = []
    · rw [hother]
      rfl
    · rw [if_neg (by simpa using hother)]
      rfl
  | cons name above ih =>
    have ih := ih fun around haround => h around (haround.trans (List.suffix_cons name above))
    have habove : (t.withDirectories above).entryAt above = some .directory := by
      rw [ih, if_pos (List.suffix_refl above)]
    have hnew : (t.withDirectories above).entryAt (name :: above) = t.entryAt (name :: above) := by
      rw [ih, if_neg (not_cons_suffix name above)]
    rw [withDirectories]
    simp only [List.suffix_cons_iff]
    by_cases hmissing : (t.withDirectories above).entryAt (name :: above) = none
    · rw [if_pos hmissing, entryAt_place habove (by rw [hmissing]; simp), ih]
      by_cases heq : other = name :: above <;> simp [heq]
    · rw [if_neg hmissing]
      by_cases heq : other = name :: above
      · -- What was there already is a directory.
        rw [hnew] at hmissing
        obtain ⟨e, he⟩ := Option.ne_none_iff_exists'.mp hmissing
        have hdirectory := h (name :: above) (List.suffix_refl _)
        rw [he, Option.all_some, decide_eq_true_eq] at hdirectory
        rw [if_pos (Or.inl heq), heq, hnew, he, hdirectory]
      · rw [ih]
        simp [heq]

/-- A file can be added wherever there is room. -/
theorem addsFile_addFile {t : FileTree} {loc : Location} (h : t.HasRoomAt loc)
    (contents : List UInt8) : t.AddsFile (t.addFile loc contents) loc contents := by
  obtain ⟨hvacant, haround⟩ := h
  cases loc with
  | nil => cases hvacant
  | cons name above =>
    have hdirectories : ∀ around, around <:+ above →
        (t.entryAt around).all (· = .directory) := fun around hsuffix =>
      haround around ((List.mem_tails _ _).mpr (hsuffix.trans (List.suffix_cons name above)))
    have hentry := entryAt_withDirectories hdirectories
    have hnew : (t.withDirectories above).entryAt (name :: above) ≠ some .directory := by
      rw [hentry, if_neg (not_cons_suffix name above), hvacant]
      simp
    have habove : (t.withDirectories above).entryAt above = some .directory := by
      rw [hentry, if_pos (List.suffix_refl above)]
    -- The file is new, the directories around it are there now, and the rest is as it was.
    have hplace : ∀ other, (t.addFile (name :: above) contents).entryAt other
        = if other = name :: above then some (.file contents)
          else if other <:+ above then some .directory else t.entryAt other := by
      intro other
      rw [← hentry]
      exact entryAt_place habove hnew
    refine ⟨hvacant, by rw [hplace, if_pos rfl], fun other e he => ?_, fun other hother => ?_⟩
    · rw [hplace, if_neg]
      · split
        · rename_i hsuffix
          have hdirectory := hdirectories other hsuffix
          rw [he, Option.all_some, decide_eq_true_eq] at hdirectory
          rw [hdirectory]
        · exact he
      · rintro rfl
        rw [hvacant] at he
        cases he
    · rw [List.suffix_cons_iff, not_or] at hother
      rw [hplace, if_neg hother.1, if_neg hother.2]

end FileTree

/-! ### What a workspace still says about a path -/

namespace Workspace

/-- Whether the workspace `w'` is `w` with a new file at a location, and with the
directories around it that were missing. -/
structure AddsFile (w w' : Workspace) (loc : Location) (contents : List UInt8) : Prop where
  /-- They have the same current directory. -/
  current : w'.current = w.current
  /-- The file is all that is new in the tree. -/
  tree : w.tree.AddsFile w'.tree loc contents

/-- The workspace with a file at a location, and with the directories around it. -/
def addFile (w : Workspace) (loc : Location) (contents : List UInt8) : Workspace :=
  { w with tree := w.tree.addFile loc contents }

/-- Adding a file to the tree of a workspace adds it to the workspace. -/
theorem addsFile_addFile {w : Workspace} {loc : Location} (h : w.tree.HasRoomAt loc)
    (contents : List UInt8) : w.AddsFile (w.addFile loc contents) loc contents :=
  ⟨rfl, FileTree.addsFile_addFile h contents⟩

variable {w w' : Workspace} {loc : Location} {contents : List UInt8}

/-- A path that named an entry names it still. -/
theorem stat_of_addsFile (h : w.AddsFile w' loc contents) {p : Path} {r : Location × Entry}
    (hstat : w.stat p = .ok r) : w'.stat p = .ok r := by
  obtain ⟨l, e⟩ := r
  rw [stat_eq_ok_iff, locate_eq_ok_iff] at hstat ⊢
  rw [h.current]
  exact ⟨hstat.1, hstat.2.1, hstat.2.2.1, h.tree.lookupFrom _ hstat.2.2.2⟩

/-- A directory is still one. -/
theorem isDir_of_addsFile (h : w.AddsFile w' loc contents) {p : Path} (hdir : w.isDir p = true) :
    w'.isDir p = true := by
  obtain ⟨l, hl⟩ := isDir_iff.mp hdir
  exact isDir_iff.mpr ⟨l, stat_of_addsFile h hl⟩

/-- A path that names something still does. -/
theorem pathExists_of_addsFile (h : w.AddsFile w' loc contents) {p : Path}
    (hexists : w.pathExists p = true) : w'.pathExists p = true := by
  obtain ⟨l, e, hl⟩ := pathExists_iff.mp hexists
  exact pathExists_iff.mpr ⟨l, e, stat_of_addsFile h hl⟩

/-- A text can still be read, and is the same. -/
theorem readText_of_addsFile (h : w.AddsFile w' loc contents) {p : Path} {text : List Char}
    (hread : w.readText p = .ok text) : w'.readText p = .ok text := by
  obtain ⟨l, bytes, hstat, hdecode⟩ := readText_eq_ok_iff.mp hread
  exact readText_eq_ok_iff.mpr ⟨l, bytes, stat_of_addsFile h hstat, hdecode⟩

/-- An entry of a directory is still listed. -/
theorem mem_list_of_addsFile (h : w.AddsFile w' loc contents) {p : Path} {name : Name} {e : Entry}
    (hmem : (name, e) ∈ w.list p) : (name, e) ∈ w'.list p := by
  obtain ⟨l, hstat, he⟩ := mem_list_iff.mp hmem
  exact mem_list_iff.mpr ⟨l, stat_of_addsFile h hstat, h.tree.kept _ _ he⟩

end Workspace

end Unimported
