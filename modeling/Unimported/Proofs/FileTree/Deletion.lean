import Unimported.Proofs.FileTree.LinkFree

/-!
# `Unimported.Proofs.FileTree.Deletion`: a tree without some of its files

`Workspace.deleteFiles` takes the files at some locations out of a tree. Directories
stay, so every lookup that does not end at one of those files ends where it ended
before. The statements:

* `entryAt_remove`: taking a file out changes nothing at any other location.
* `entryAt_deleteFiles`: what is left in the tree.
* `stat_deleteFiles`: which paths still name an entry, namely the same entry as before.
-/

set_option autoImplicit false

namespace Unimported

/-- Whether an entry is a file. -/
def Entry.isFile : Entry → Bool
  | file _ => true
  | _ => false

namespace FileTree

/-- The tree without the entry at a location, if it is a file. -/
def deleteFile (t : FileTree) (loc : Location) : FileTree :=
  match t.entryAt loc with
  | some (.file _) => t.remove loc
  | _ => t

/-- The tree without the files at these locations. -/
def deleteFiles (t : FileTree) (locs : List Location) : FileTree :=
  locs.foldl deleteFile t

/-- Removing an entry removes its row and the rows below it. -/
theorem table_remove (t : FileTree) (loc other : Location) :
    (t.remove loc).table[other]? = if loc.isSuffixOf other then none else t.table[other]? := by
  rw [remove, Std.TreeMap.getElem?_filter']
  cases loc.isSuffixOf other <;> cases t.table[other]? <;> simp

/-- Taking a file out changes nothing at any other location. -/
theorem entryAt_remove {t : FileTree} {loc other : Location} {contents : List UInt8}
    (h : t.entryAt loc = some (.file contents)) :
    (t.remove loc).entryAt other = if other = loc then none else t.entryAt other := by
  induction other with
  | nil =>
    have hne : loc ≠ [] := by
      rintro rfl
      cases h
    rw [if_neg hne.symm]
    rfl
  | cons name above ih =>
    rw [entryAt, ih, entryAt]
    by_cases habove : above = loc
    · -- Nothing is below a file, before or after.
      subst habove
      have hne : name :: above ≠ above := List.cons_ne_self name above
      rw [if_pos rfl, if_neg hne, h]
    · rw [if_neg habove]
      cases hentry : t.entryAt above with
      | none => simp
      | some e =>
        cases e with
        | file contents => simp
        | link target => simp
        | directory =>
          simp only [table_remove]
          have hsuffix : loc.isSuffixOf (name :: above) = true ↔ name :: above = loc := by
            rw [List.isSuffixOf_iff_suffix, List.suffix_cons_iff]
            constructor
            · rintro (heq | ⟨below, rfl⟩)
              · exact heq.symm
              · -- A directory above would stand below the file.
                cases below with
                | nil => exact absurd rfl habove
                | cons n below =>
                  have hdirectory := entryAt_of_append hentry
                  rw [h] at hdirectory
                  cases hdirectory
            · exact fun heq => Or.inl heq.symm
          by_cases heq : name :: above = loc
          · rw [if_pos (hsuffix.mpr heq), if_pos heq]
          · rw [if_neg (fun hs => heq (hsuffix.mp hs)), if_neg heq]

/-- What is left in a tree without one of its files. -/
theorem entryAt_deleteFile (t : FileTree) (loc other : Location) (e : Entry) :
    (t.deleteFile loc).entryAt other = some e ↔
      t.entryAt other = some e ∧ (other = loc → e.isFile = false) := by
  unfold deleteFile
  split
  · rename_i contents hfile
    rw [entryAt_remove hfile]
    by_cases heq : other = loc
    · subst heq
      rw [if_pos rfl]
      constructor
      · intro he
        cases he
      · rintro ⟨he, hleft⟩
        rw [hfile] at he
        cases he
        cases hleft rfl
    · simp [heq]
  · -- Nothing is deleted where no file is.
    rename_i hnot
    constructor
    · intro he
      refine ⟨he, ?_⟩
      rintro rfl
      cases e with
      | file contents => exact absurd he (hnot contents)
      | directory => rfl
      | link target => rfl
    · exact And.left

/-- What is left in a tree without some of its files. -/
theorem entryAt_deleteFiles (t : FileTree) (locs : List Location) (other : Location) (e : Entry) :
    (t.deleteFiles locs).entryAt other = some e ↔
      t.entryAt other = some e ∧ (other ∈ locs → e.isFile = false) := by
  induction locs generalizing t with
  | nil => simp [deleteFiles]
  | cons loc locs ih =>
    show ((t.deleteFile loc).deleteFiles locs).entryAt other = some e ↔ _
    rw [ih, entryAt_deleteFile]
    simp only [List.mem_cons]
    tauto

/-- Each location is as it was, or there was a file that is gone. -/
theorem entryAt_deleteFiles_cases (t : FileTree) (locs : List Location) (loc : Location) :
    (t.deleteFiles locs).entryAt loc = t.entryAt loc ∨
      ∃ contents, t.entryAt loc = some (.file contents) ∧ loc ∈ locs ∧
        (t.deleteFiles locs).entryAt loc = none := by
  have hiff := entryAt_deleteFiles t locs loc
  cases hleft : (t.deleteFiles locs).entryAt loc with
  | some e => exact Or.inl ((hiff e).mp hleft).1.symm
  | none =>
    cases hentry : t.entryAt loc with
    | none => exact Or.inl rfl
    | some e =>
      have hgone : ¬(loc ∈ locs → e.isFile = false) := by
        intro hkept
        rw [(hiff e).mpr ⟨hentry, hkept⟩] at hleft
        cases hleft
      obtain ⟨hmem, hfile⟩ := Classical.not_imp.mp hgone
      cases e with
      | file contents => exact Or.inr ⟨contents, rfl, hmem, rfl⟩
      | directory => exact absurd rfl hfile
      | link target => exact absurd rfl hfile

/-- Deleting files leaves every directory, and makes none. -/
theorem directory_deleteFiles {t : FileTree} {locs : List Location} {loc : Location} :
    (t.deleteFiles locs).entryAt loc = some .directory ↔ t.entryAt loc = some .directory := by
  rw [entryAt_deleteFiles]
  exact and_iff_left fun _ => rfl

/-- Deleting files makes no links. -/
theorem LinkFree.deleteFiles {t : FileTree} (h : t.LinkFree) (locs : List Location) :
    (t.deleteFiles locs).LinkFree := by
  intro loc e he
  exact h loc e ((entryAt_deleteFiles t locs loc e).mp he).1

/-- From a file no step leads on. -/
theorem advance_file {t : FileTree} {loc l : Location} {e : Entry} {contents : List UInt8}
    {steps : List PathStep} (hfile : t.entryAt loc = some (.file contents))
    (h : t.advance loc steps = .ended (.found l e)) : l = loc ∧ e = .file contents := by
  cases steps with
  | nil =>
    simp only [advance, hfile] at h
    cases h
    exact ⟨rfl, rfl⟩
  | cons step steps => simp [advance, hfile] at h

/-- Steps that end at an entry that is left end there as before. -/
theorem advance_deleteFiles {t : FileTree} {locs : List Location} {steps : List PathStep}
    {loc l : Location} {e : Entry} :
    (t.deleteFiles locs).advance loc steps = .ended (.found l e) ↔
      t.advance loc steps = .ended (.found l e) ∧ (l ∈ locs → e.isFile = false) := by
  induction steps generalizing loc with
  | nil =>
    have hiff := entryAt_deleteFiles t locs loc
    have hended : ∀ t : FileTree, t.advance loc [] = .ended (.found l e) ↔
        loc = l ∧ t.entryAt loc = some e := by
      intro t
      rw [advance]
      split <;> simp_all
    rw [hended, hended, hiff]
    constructor
    · rintro ⟨rfl, he, hleft⟩
      exact ⟨⟨rfl, he⟩, hleft⟩
    · rintro ⟨⟨rfl, he⟩, hleft⟩
      exact ⟨rfl, he, hleft⟩
  | cons step steps ih =>
    by_cases hloc : t.entryAt loc = some .directory
    · simp only [advance, hloc, directory_deleteFiles.mpr hloc]
      cases step with
      | stay => exact ih
      | up => exact ih
      | into bytes =>
        simp only
        cases Name.ofBytes? bytes with
        | none => simp
        | some name =>
          rcases entryAt_deleteFiles_cases t locs (name :: loc) with hsame | hgone
          · simp only [hsame]
            cases hentry : t.entryAt (name :: loc) with
            | none => simp only; split <;> simp
            | some entry =>
              cases entry with
              | link target => simp
              | directory => exact ih
              | file contents => exact ih
          · -- Only the file itself could be reached by its name.
            obtain ⟨contents, hfile, hmem, hnone⟩ := hgone
            simp only [hfile, hnone]
            constructor
            · intro h
              split at h <;> cases h
            · rintro ⟨h, hkept⟩
              obtain ⟨rfl, rfl⟩ := advance_file hfile h
              cases hkept hmem
    · -- Nothing goes on behind a location that is no directory.
      have hloc' : (t.deleteFiles locs).entryAt loc ≠ some .directory :=
        fun h => hloc (directory_deleteFiles.mp h)
      have hstop : ∀ t : FileTree, t.entryAt loc ≠ some .directory →
          t.advance loc (step :: steps) ≠ .ended (.found l e) := by
        intro t ht
        simp only [advance]
        split <;> simp_all
      simp [hstop _ hloc, hstop _ hloc']

end FileTree

namespace Workspace

/-- The workspace without the files at these locations. -/
def deleteFiles (w : Workspace) (locs : List Location) : Workspace :=
  { w with tree := w.tree.deleteFiles locs }

/-- A path still names an entry exactly if it named one that is left, and then the same
one. -/
theorem stat_deleteFiles {w : Workspace} (hfree : w.tree.LinkFree) {locs : List Location}
    {p : Path} {loc : Location} {e : Entry} :
    (w.deleteFiles locs).stat p = .ok (loc, e) ↔
      w.stat p = .ok (loc, e) ∧ (loc ∈ locs → e.isFile = false) := by
  rw [stat_eq_ok_iff_advance (hfree.deleteFiles locs), stat_eq_ok_iff_advance hfree]
  simp only [deleteFiles, FileTree.advance_deleteFiles]
  tauto

/-- The same paths name directories after files are deleted. -/
theorem isDir_deleteFiles {w : Workspace} (hfree : w.tree.LinkFree) (locs : List Location)
    (p : Path) : (w.deleteFiles locs).isDir p = w.isDir p := by
  rw [Bool.eq_iff_iff, isDir_iff, isDir_iff]
  refine exists_congr fun loc => ?_
  rw [stat_deleteFiles hfree]
  exact and_iff_left fun _ => rfl

/-- A directory lists what it listed before, but for the deleted files. -/
theorem mem_list_deleteFiles {w : Workspace} (hfree : w.tree.LinkFree) {locs : List Location}
    {p : Path} {loc : Location} (hdir : w.stat p = .ok (loc, .directory)) {name : Name}
    {e : Entry} :
    (name, e) ∈ (w.deleteFiles locs).list p ↔
      (name, e) ∈ w.list p ∧ (name :: loc ∈ locs → e.isFile = false) := by
  have hdir' : (w.deleteFiles locs).stat p = .ok (loc, .directory) :=
    (stat_deleteFiles hfree).mpr ⟨hdir, fun _ => rfl⟩
  rw [mem_list_iff, mem_list_iff, hdir, hdir']
  simp [deleteFiles, FileTree.entryAt_deleteFiles]

end Workspace

end Unimported
