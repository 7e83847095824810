import Unimported.Proofs.FileTree.Addition

/-!
# `Unimported.Proofs.FileTree.Writing`: writing one file

A path can be written if it leads to a file, or to a free name in a directory that is
there; a link at its end is followed in either case. The statements:

* `exists_write_iff`: writing succeeds exactly for these paths, whatever is written.
* `AddsFile.advance_vacant`, `AddsFile.lookupFrom_vacant`: a lookup that ended at a free
  name ends at the file that has been put there.
* `wrote_of_write`: the path names the new contents afterwards, and no other location has
  changed.
* `writable_of_sameOutline`: which paths can be written has nothing to do with contents.
-/

set_option autoImplicit false

namespace Unimported

namespace FileTree

variable {t t' : FileTree}

/-- A free name is free, and its directory is one. -/
theorem vacant_of_advance {start dir : Location} {name : Name} {steps : List PathStep}
    (h : t.advance start steps = .ended (.vacant dir name)) :
    t.entryAt dir = some .directory ∧ t.entryAt (name :: dir) = none := by
  induction steps generalizing start with
  | nil =>
    rw [advance] at h
    split at h <;> cases h
  | cons step rest ih =>
    simp only [advance] at h
    split at h
    · rename_i hstart
      cases step with
      | stay => exact ih h
      | up => exact ih h
      | into bytes =>
        simp only at h
        split at h
        · cases h
        · split at h
          · rename_i hnext
            split at h <;> cases h
            exact ⟨hstart, hnext⟩
          · cases h
          · exact ih h
    · cases h
    · cases h

/-- Where a lookup comes to a free name, there is a directory with nothing of this name. -/
theorem vacant_of_lookupFrom (links : Nat) {start dir : Location} {name : Name}
    {steps : List PathStep} (h : t.lookupFrom links start steps = .ok (.vacant dir name)) :
    t.entryAt dir = some .directory ∧ t.entryAt (name :: dir) = none := by
  rw [lookupFrom_eq_ok_iff] at h
  induction h with
  | ended hended => exact vacant_of_advance hended
  | link _ _ _ ih => exact ih

/-- Placing an entry at a free name changes no other location. -/
theorem entryAt_place_vacant {name : Name} {dir : Location}
    (hdir : t.entryAt dir = some .directory) (hfree : t.entryAt (name :: dir) = none) (e : Entry)
    (other : Location) : (t.place (name :: dir) e).entryAt other
      = if other = name :: dir then some e else t.entryAt other := by
  refine entryAt_place hdir ?_
  rw [hfree]
  exact nofun

/-- A file that is put at a free name is all that is new. -/
theorem addsFile_place {name : Name} {dir : Location} (hdir : t.entryAt dir = some .directory)
    (hfree : t.entryAt (name :: dir) = none) (contents : List UInt8) :
    t.AddsFile (t.place (name :: dir) (.file contents)) (name :: dir) contents := by
  refine ⟨hfree, ?_, ?_, ?_⟩
  · rw [entryAt_place_vacant hdir hfree, if_pos rfl]
  · intro other e he
    rw [entryAt_place_vacant hdir hfree, if_neg]
    · exact he
    · rintro rfl
      rw [hfree] at he
      cases he
  · intro other hother
    rw [entryAt_place_vacant hdir hfree, if_neg]
    rintro rfl
    exact hother (List.suffix_refl _)

namespace AddsFile

variable {name : Name} {dir : Location} {contents : List UInt8}

/-- Steps that ended at the free name end at the file that is there now. -/
theorem advance_vacant (h : t.AddsFile t' (name :: dir) contents) {start : Location}
    {steps : List PathStep} (hvacant : t.advance start steps = .ended (.vacant dir name)) :
    t'.advance start steps = .ended (.found (name :: dir) (.file contents)) := by
  induction steps generalizing start with
  | nil =>
    rw [FileTree.advance] at hvacant
    split at hvacant <;> cases hvacant
  | cons step rest ih =>
    simp only [FileTree.advance] at hvacant ⊢
    split at hvacant
    · rename_i hstart
      rw [h.kept start _ hstart]
      cases step with
      | stay => exact ih hvacant
      | up => exact ih hvacant
      | into bytes =>
        simp only at hvacant ⊢
        split at hvacant
        · cases hvacant
        · split at hvacant
          · -- The last name of the path is the one that was free.
            split at hvacant <;> cases hvacant
            rename_i hrest _ _
            rw [hrest]
            simp only [h.added, FileTree.advance]
          · cases hvacant
          · rename_i e hlink hnext
            rw [h.kept _ e hnext]
            cases e with
            | link target => exact absurd rfl (hlink target)
            | directory => exact ih hvacant
            | file bytes => exact ih hvacant
    · cases hvacant
    · cases hvacant

/-- A lookup that came to the free name comes to the file after it is added. -/
theorem lookupFrom_vacant (h : t.AddsFile t' (name :: dir) contents) (links : Nat)
    {start : Location} {steps : List PathStep}
    (hvacant : t.lookupFrom links start steps = .ok (.vacant dir name)) :
    t'.lookupFrom links start steps = .ok (.found (name :: dir) (.file contents)) := by
  rw [FileTree.lookupFrom_eq_ok_iff] at hvacant
  induction hvacant with
  | ended hended => exact FileTree.lookupFrom_of_ended (h.advance_vacant hended)
  | link hlink htarget _ ih =>
    -- A link on the way has been there before, and leads to where it did.
    exact (FileTree.lookupFrom_of_link (h.advance.2 hlink) htarget).trans ih

end AddsFile

end FileTree

namespace Workspace

/-- Whether a path can be written: it leads to a file, or to a free name in a directory. -/
def Writable (w : Workspace) (p : Path) : Prop :=
  (∃ loc contents, w.locate p = .ok (.found loc (.file contents))) ∨
    ∃ dir name, w.locate p = .ok (.vacant dir name)

/-- Whether the workspace `w'` is `w` after contents have been written to a path: the path
names them, and all else is as it was. -/
structure Wrote (w w' : Workspace) (p : Path) (contents : List UInt8) : Prop where
  /-- The current directory is the same. -/
  current : w'.current = w.current
  /-- The file at the end of the path has the contents. It was a file before, or nothing
  has been there, and no other location has changed. -/
  file : ∃ loc, w'.stat p = .ok (loc, .file contents) ∧
    ((∃ old, w.stat p = .ok (loc, .file old)) ∨ w.tree.entryAt loc = none) ∧
    ∀ other, other ≠ loc → w'.tree.entryAt other = w.tree.entryAt other

variable {w w' : Workspace} {p : Path} {contents : List UInt8}

/-- Writing succeeds for the paths that can be written. -/
theorem exists_write_iff : (∃ written, w.write p contents = .ok written) ↔ w.Writable p := by
  unfold write Writable
  cases hlocate : w.locate p with
  | error e => simp
  | ok place =>
    cases place with
    | vacant dir name => simp
    | found loc e => cases e <;> simp

/-- What is written can be read, and nothing else has changed. -/
theorem wrote_of_write (h : w.write p contents = .ok w') : w.Wrote w' p contents := by
  unfold write at h
  split at h
  · rename_i loc old hlocate
    cases h
    have hstat : w.stat p = .ok (loc, .file old) := stat_eq_ok_iff.mpr hlocate
    have hentry := entryAt_of_stat hstat
    have hstat' := stat_place hentry contents hstat
    rw [if_pos rfl] at hstat'
    refine ⟨rfl, loc, hstat', Or.inl ⟨old, hstat⟩, fun other hother => ?_⟩
    exact (entryAt_place_file hentry contents other).trans (if_neg hother)
  · cases h
  · cases h
  · rename_i dir name hlocate
    cases h
    -- Here the file is new, so the lookup that found the name free has to find it.
    have hlookup := locate_eq_ok_iff.mp hlocate
    obtain ⟨hdir, hfree⟩ := FileTree.vacant_of_lookupFrom _ hlookup.2.2.2
    have hadds := FileTree.addsFile_place hdir hfree contents
    refine ⟨rfl, name :: dir, ?_, Or.inr hfree, fun other hother => ?_⟩
    · rw [stat_eq_ok_iff, locate_eq_ok_iff]
      exact ⟨hlookup.1, hlookup.2.1, hlookup.2.2.1, hadds.lookupFrom_vacant _ hlookup.2.2.2⟩
    · exact (FileTree.entryAt_place_vacant hdir hfree _ other).trans (if_neg hother)
  · cases h

/-- Which paths can be written has nothing to do with the contents of files. -/
theorem writable_of_sameOutline (h : w.SameOutline w') : w'.Writable p ↔ w.Writable p := by
  have hwritable : ∀ {v v' : Workspace}, v.SameOutline v' → v.Writable p → v'.Writable p := by
    intro v v' hv hp
    have houtline := locate_outline hv p
    rcases hp with ⟨loc, contents, hfound⟩ | ⟨dir, name, hvacant⟩
    · rw [hfound] at houtline
      cases hplace : v'.locate p with
      | error e =>
        rw [hplace] at houtline
        cases houtline
      | ok place =>
        rw [hplace] at houtline
        cases place with
        | vacant dir name => cases houtline
        | found l e =>
          cases e with
          | file contents' => exact Or.inl ⟨l, contents', hplace⟩
          | directory => cases houtline
          | link target => cases houtline
    · rw [hvacant] at houtline
      cases hplace : v'.locate p with
      | error e =>
        rw [hplace] at houtline
        cases houtline
      | ok place =>
        rw [hplace] at houtline
        cases place with
        | vacant dir' name' => exact Or.inr ⟨dir', name', hplace⟩
        | found l e => cases houtline
  exact ⟨hwritable h.symm, hwritable h⟩

end Workspace

end Unimported
