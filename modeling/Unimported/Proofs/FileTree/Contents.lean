import Unimported.FileTree.Edit
import Unimported.Proofs.FileTree.Deletion

/-!
# `Unimported.Proofs.FileTree.Contents`: trees that differ in the contents of files

Two trees have the same outline if they have the same names, directories and links, and
files at the same locations. Nothing but reading a file looks at contents, so every
lookup ends in both at the same location or fails for the same reason. The statements:

* `entryAt_place`: an entry that takes the place of a file changes no other location.
* `SameOutline.advance`, `SameOutline.lookupFrom`, `stat_outline`: lookups in two trees of
  the same outline.
* `isDir_of_sameOutline`, `isFile_of_sameOutline`, `pathExists_of_sameOutline`,
  `exists_mem_list`: what a workspace says without reading a file.
* `error_of_sameOutline`: a path names a text in one of the trees only where the contents
  in the other are not UTF-8.
* `stat_place`, `sameOutline_place`: what becomes of a tree if one file is written anew.
-/

set_option autoImplicit false

namespace Unimported

/-! ### Putting an entry in its place -/

namespace FileTree

/-- Placing an entry writes its own row and removes the rows below it. -/
theorem table_place (t : FileTree) (loc other : Location) (e : Entry) :
    (t.place loc e).table[other]? =
      if other = loc then some e else if loc.isSuffixOf other then none else t.table[other]? := by
  rw [place, Std.TreeMap.getElem?_insert, table_remove]
  by_cases h : other = loc
  · rw [if_pos h, if_pos (Std.compare_eq_iff_eq.mpr h.symm)]
  · rw [if_neg h, if_neg fun heq => h (Std.compare_eq_iff_eq.mp heq).symm]

/-- What is in a directory is told by the table alone. -/
theorem entryAt_cons_of_directory {t : FileTree} {name : Name} {above : Location}
    (h : t.entryAt above = some .directory) :
    t.entryAt (name :: above) = t.table[name :: above]? := by
  rw [entryAt, h]

/-- Nothing is below a location that is no directory. -/
theorem entryAt_cons_of_ne {t : FileTree} {above : Location} (h : t.entryAt above ≠ some .directory)
    (name : Name) : t.entryAt (name :: above) = none := by
  rw [entryAt]
  split
  · exact absurd ‹_› h
  · rfl

/-- An entry that takes the place of anything but a directory changes no other location. -/
theorem entryAt_place {t : FileTree} {name : Name} {above other : Location} {e : Entry}
    (habove : t.entryAt above = some .directory)
    (hnot : t.entryAt (name :: above) ≠ some .directory) :
    (t.place (name :: above) e).entryAt other
      = if other = name :: above then some e else t.entryAt other := by
  induction other with
  | nil => rfl
  | cons n rest ih =>
    by_cases hrest : rest = name :: above
    · -- Nothing was below the location, and what is put there is empty.
      rw [if_pos hrest] at ih
      have hne : n :: rest ≠ name :: above := hrest ▸ List.cons_ne_self n rest
      have hold : t.entryAt (n :: rest) = none := by
        rw [hrest]
        exact entryAt_cons_of_ne hnot n
      rw [if_neg hne, hold]
      by_cases he : e = .directory
      · have hbelow : (name :: above).isSuffixOf (n :: rest) = true :=
          List.isSuffixOf_iff_suffix.mpr (hrest ▸ List.suffix_cons n rest)
        rw [he] at ih ⊢
        rw [entryAt_cons_of_directory ih, table_place, if_neg hne, if_pos hbelow]
      · refine entryAt_cons_of_ne (fun h => he ?_) n
        rw [ih] at h
        exact Option.some.inj h
    · rw [if_neg hrest] at ih
      by_cases hdir : t.entryAt rest = some .directory
      · rw [entryAt_cons_of_directory (ih.trans hdir), entryAt_cons_of_directory hdir, table_place]
        by_cases heq : n :: rest = name :: above
        · rw [if_pos heq, if_pos heq]
        · rw [if_neg heq, if_neg heq, if_neg]
          -- A directory below the location would need one at the location.
          rw [List.isSuffixOf_iff_suffix, List.suffix_cons_iff]
          rintro (hsame | ⟨below, rfl⟩)
          · exact heq hsame.symm
          · cases below with
            | nil => exact hrest rfl
            | cons m below => exact hnot (entryAt_of_append hdir)
      · have hne : n :: rest ≠ name :: above := by
          intro h
          rw [(List.cons.inj h).2] at hdir
          exact hdir habove
        rw [if_neg hne, entryAt_cons_of_ne hdir, entryAt_cons_of_ne (ih ▸ hdir)]

end FileTree

/-! ### The outline of a tree -/

/-- An entry without the contents of a file. -/
def Entry.outline : Entry → Entry
  | .file _ => .file []
  | e => e

/-- Where a lookup ends, without the contents of a file. -/
def Place.outline : Place → Place
  | .found loc e => .found loc e.outline
  | p => p

namespace FileTree

/-- How far a lookup comes, without the contents of a file. -/
def Advance.outline : Advance → Advance
  | .ended place => .ended place.outline
  | a => a

/-- Two steps of the same outline are the same, unless both have ended at files. -/
theorem Advance.eq_of_outline {a a' : Advance} (h : a.outline = a'.outline) :
    a = a' ∨ ∃ place place', a = .ended place ∧ a' = .ended place' ∧
      place.outline = place'.outline := by
  cases a <;> cases a' <;> simp_all [outline]

/-- Whether two trees differ in nothing but the contents of files. -/
def SameOutline (t t' : FileTree) : Prop :=
  ∀ loc, (t.entryAt loc).map Entry.outline = (t'.entryAt loc).map Entry.outline

namespace SameOutline

variable {t t' : FileTree}

/-- Having the same outline is symmetric. -/
theorem symm (h : t.SameOutline t') : t'.SameOutline t :=
  fun loc => (h loc).symm

/-- Each location has the same entry in both trees, or a file in each of them. -/
theorem cases (h : t.SameOutline t') (loc : Location) :
    t.entryAt loc = t'.entryAt loc ∨
      ∃ contents contents', t.entryAt loc = some (.file contents) ∧
        t'.entryAt loc = some (.file contents') := by
  have houtline := h loc
  cases he : t.entryAt loc with
  | none => cases he' : t'.entryAt loc <;> simp_all
  | some e =>
    cases he' : t'.entryAt loc with
    | none => simp_all
    | some e' => cases e <;> cases e' <;> simp_all [Entry.outline]

/-- Steps lead in both trees to the same location, to the same link, or nowhere. -/
theorem advance (h : t.SameOutline t') (loc : Location) (steps : List PathStep) :
    (t.advance loc steps).outline = (t'.advance loc steps).outline := by
  induction steps generalizing loc with
  | nil =>
    simp only [FileTree.advance]
    rcases h.cases loc with heq | ⟨contents, contents', he, he'⟩
    · rw [heq]
    · simp only [he, he', Advance.outline, Place.outline, Entry.outline]
  | cons step steps ih =>
    simp only [FileTree.advance]
    rcases h.cases loc with heq | ⟨contents, contents', he, he'⟩
    · rw [heq]
      split
      · cases step with
        | stay => exact ih loc
        | up => exact ih loc.tail
        | into bytes =>
          simp only
          cases Name.ofBytes? bytes with
          | none => rfl
          | some name =>
            simp only
            rcases h.cases (name :: loc) with heq | ⟨contents, contents', he, he'⟩
            · rw [heq]
              cases t'.entryAt (name :: loc) with
              | none => rfl
              | some e =>
                cases e with
                | link target => rfl
                | directory => exact ih (name :: loc)
                | file contents => exact ih (name :: loc)
            · simp only [he, he']
              exact ih (name :: loc)
      · rfl
      · rfl
    · -- Nothing goes on behind a file.
      simp only [he, he']

/-- Lookups end at the same place in both trees, links followed, or fail alike. -/
theorem lookupFrom (h : t.SameOutline t') (links : Nat) (loc : Location)
    (steps : List PathStep) :
    (t.lookupFrom links loc steps).map Place.outline
      = (t'.lookupFrom links loc steps).map Place.outline := by
  induction links generalizing loc steps with
  | zero =>
    rw [FileTree.lookupFrom, FileTree.lookupFrom]
    rcases Advance.eq_of_outline (h.advance loc steps) with heq | ⟨place, place', ha, ha', hplace⟩
    · rw [heq]
    · simp only [ha, ha', Except.map, hplace]
  | succ links ih =>
    rw [FileTree.lookupFrom, FileTree.lookupFrom]
    rcases Advance.eq_of_outline (h.advance loc steps) with heq | ⟨place, place', ha, ha', hplace⟩
    · rw [heq]
      cases t'.advance loc steps with
      | ended place => rfl
      | failed error => rfl
      | link dir target rest =>
        simp only
        split
        · rfl
        · exact ih _ _
    · simp only [ha, ha', Except.map, hplace]

end SameOutline

end FileTree

/-! ### What a workspace says about a path -/

namespace Workspace

/-- Whether two workspaces differ in nothing but the contents of files. -/
structure SameOutline (w w' : Workspace) : Prop where
  /-- They have the same current directory. -/
  current : w.current = w'.current
  /-- Their trees have the same names, directories and links. -/
  tree : w.tree.SameOutline w'.tree

section

variable {w w' : Workspace}

/-- Having the same outline is symmetric for workspaces as well. -/
theorem SameOutline.symm (h : w.SameOutline w') : w'.SameOutline w :=
  ⟨h.current.symm, h.tree.symm⟩

/-- A path leads to the same location in trees of the same outline, or fails alike. -/
theorem locate_outline (h : w.SameOutline w') (p : Path) :
    (w.locate p).map Place.outline = (w'.locate p).map Place.outline := by
  unfold locate FileTree.locate
  rw [← h.current]
  split
  · rfl
  · split
    · rfl
    · split
      · rfl
      · exact h.tree.lookupFrom mostLinks _ _

/-- A path leads to the same location in both workspaces, or fails for the same reason. -/
theorem stat_outline (h : w.SameOutline w') (p : Path) :
    (w.stat p).map (fun r => (r.1, r.2.outline)) = (w'.stat p).map fun r => (r.1, r.2.outline) := by
  have hlocate := locate_outline h p
  unfold stat
  cases hp : w.locate p with
  | error e => cases hp' : w'.locate p <;> simp_all [Except.map]
  | ok place =>
    cases hp' : w'.locate p with
    | error e => simp_all [Except.map]
    | ok place' => cases place <;> cases place' <;> simp_all [Except.map, Place.outline]

/-- What a path names in one tree it names in the other, but for the contents. -/
theorem exists_stat_of_sameOutline (h : w.SameOutline w') {p : Path} {loc : Location} {e : Entry}
    (hstat : w.stat p = .ok (loc, e)) :
    ∃ e', w'.stat p = .ok (loc, e') ∧ e'.outline = e.outline := by
  have houtline := stat_outline h p
  rw [hstat] at houtline
  cases hstat' : w'.stat p with
  | error err =>
    rw [hstat'] at houtline
    cases houtline
  | ok r =>
    rw [hstat'] at houtline
    obtain ⟨hloc, he⟩ := Prod.mk.inj (Except.ok.inj houtline)
    obtain ⟨l, e'⟩ := r
    obtain rfl : loc = l := hloc
    exact ⟨e', rfl, he.symm⟩

/-- A path that names nothing fails for the same reason in both. -/
theorem error_stat_of_sameOutline (h : w.SameOutline w') {p : Path} {err : IoError}
    (hstat : w.stat p = .error err) : w'.stat p = .error err := by
  have houtline := stat_outline h p
  rw [hstat] at houtline
  cases hstat' : w'.stat p with
  | error err' =>
    rw [hstat'] at houtline
    rw [Except.error.inj houtline]
  | ok r =>
    rw [hstat'] at houtline
    cases houtline

/-- Only a directory has the outline of a directory. -/
theorem stat_directory_of_sameOutline (h : w.SameOutline w') {p : Path} {loc : Location}
    (hstat : w.stat p = .ok (loc, .directory)) : w'.stat p = .ok (loc, .directory) := by
  obtain ⟨e', hstat', houtline⟩ := exists_stat_of_sameOutline h hstat
  cases e' with
  | directory => exact hstat'
  | file contents => cases houtline
  | link target => cases houtline

/-- The same paths name directories. -/
theorem isDir_of_sameOutline (h : w.SameOutline w') (p : Path) : w'.isDir p = w.isDir p := by
  rw [Bool.eq_iff_iff, isDir_iff, isDir_iff]
  exact exists_congr fun loc =>
    ⟨stat_directory_of_sameOutline h.symm, stat_directory_of_sameOutline h⟩

/-- The same paths name files. -/
theorem isFile_of_sameOutline (h : w.SameOutline w') (p : Path) : w'.isFile p = w.isFile p := by
  have hfile : ∀ {v v' : Workspace}, v.SameOutline v' → v.isFile p = true →
      v'.isFile p = true := by
    intro v v' hv hp
    obtain ⟨loc, contents, hstat⟩ := isFile_iff.mp hp
    obtain ⟨e', hstat', houtline⟩ := exists_stat_of_sameOutline hv hstat
    cases e' with
    | file contents' => exact isFile_iff.mpr ⟨loc, contents', hstat'⟩
    | directory => cases houtline
    | link target => cases houtline
  rw [Bool.eq_iff_iff]
  exact ⟨hfile h.symm, hfile h⟩

/-- The same paths name anything. -/
theorem pathExists_of_sameOutline (h : w.SameOutline w') (p : Path) :
    w'.pathExists p = w.pathExists p := by
  have hexists : ∀ {v v' : Workspace}, v.SameOutline v' → v.pathExists p = true →
      v'.pathExists p = true := by
    intro v v' hv hp
    obtain ⟨loc, e, hstat⟩ := pathExists_iff.mp hp
    obtain ⟨e', hstat', -⟩ := exists_stat_of_sameOutline hv hstat
    exact pathExists_iff.mpr ⟨loc, e', hstat'⟩
  rw [Bool.eq_iff_iff]
  exact ⟨hexists h.symm, hexists h⟩

/-- A directory lists the same names in both workspaces. -/
theorem exists_mem_list (h : w.SameOutline w') {p : Path} {name : Name} {e : Entry}
    (hmem : (name, e) ∈ w.list p) : ∃ e', (name, e') ∈ w'.list p ∧ e'.outline = e.outline := by
  obtain ⟨loc, hstat, he⟩ := mem_list_iff.mp hmem
  have hstat' := stat_directory_of_sameOutline h hstat
  rcases h.tree.cases (name :: loc) with heq | ⟨contents, contents', hfile, hfile'⟩
  · exact ⟨e, mem_list_iff.mpr ⟨loc, hstat', heq ▸ he⟩, rfl⟩
  · rw [hfile] at he
    cases he
    exact ⟨.file contents', mem_list_iff.mpr ⟨loc, hstat', hfile'⟩, rfl⟩

/-- Where only one of two workspaces has a text, the contents in the other are not
UTF-8. -/
theorem error_of_sameOutline (h : w.SameOutline w') {p : Path} {text : List Char} {e : IoError}
    (hread : w.readText p = .ok text) (hread' : w'.readText p = .error e) : e = .notText := by
  obtain ⟨loc, contents, hstat, -⟩ := readText_eq_ok_iff.mp hread
  obtain ⟨e', hstat', houtline⟩ := exists_stat_of_sameOutline h hstat
  cases e' with
  | directory => cases houtline
  | link target => cases houtline
  | file contents' =>
    simp only [readText, read, hstat'] at hread'
    split at hread' <;> cases hread'
    rfl

/-- Two workspaces that have no text for a path have none for the same reason. -/
theorem error_eq_of_sameOutline (h : w.SameOutline w') {p : Path} {e e' : IoError}
    (hread : w.readText p = .error e) (hread' : w'.readText p = .error e') : e' = e := by
  unfold readText read at hread hread'
  cases hstat : w.stat p with
  | error err =>
    have hstat' := error_stat_of_sameOutline h hstat
    simp_all
  | ok r =>
    obtain ⟨loc, entry⟩ := r
    obtain ⟨entry', hstat', houtline⟩ := exists_stat_of_sameOutline h hstat
    rw [hstat] at hread
    rw [hstat'] at hread'
    cases entry <;> cases entry' <;> simp_all [Entry.outline]
    -- Both are files, and neither is UTF-8.
    split at hread <;> cases hread
    split at hread' <;> cases hread'
    rfl

end

/-! ### One file with other contents -/

/-- Above a file there is a directory. -/
theorem exists_above_of_file {t : FileTree} {loc : Location} {contents : List UInt8}
    (h : t.entryAt loc = some (.file contents)) :
    ∃ name above, loc = name :: above ∧ t.entryAt above = some .directory := by
  cases loc with
  | nil => cases h
  | cons name above => exact ⟨name, above, rfl, FileTree.entryAt_above h⟩

/-- Writing a file anew changes no other location, since nothing is below a file. -/
theorem entryAt_place_file {w : Workspace} {loc : Location} {contents : List UInt8}
    (h : w.tree.entryAt loc = some (.file contents)) (new : List UInt8) (other : Location) :
    (w.place loc (.file new)).tree.entryAt other
      = if other = loc then some (.file new) else w.tree.entryAt other := by
  obtain ⟨name, above, rfl, habove⟩ := exists_above_of_file h
  exact FileTree.entryAt_place habove (by rw [h]; simp)

/-- Writing a file anew keeps the outline. -/
theorem sameOutline_place {w : Workspace} {loc : Location} {contents : List UInt8}
    (h : w.tree.entryAt loc = some (.file contents)) (new : List UInt8) :
    w.SameOutline (w.place loc (.file new)) := by
  refine ⟨rfl, fun other => ?_⟩
  rw [entryAt_place_file h]
  by_cases heq : other = loc
  · rw [heq, h, if_pos rfl]
    rfl
  · rw [if_neg heq]

/-- A path to any other location names what it named before. -/
theorem stat_place {w : Workspace} {loc l : Location} {contents : List UInt8} {p : Path}
    {e : Entry} (h : w.tree.entryAt loc = some (.file contents)) (new : List UInt8)
    (hstat : w.stat p = .ok (l, e)) :
    (w.place loc (.file new)).stat p = .ok (l, if l = loc then .file new else e) := by
  obtain ⟨e', hstat', -⟩ := exists_stat_of_sameOutline (sameOutline_place h new) hstat
  have hentry' := entryAt_of_stat hstat'
  rw [entryAt_place_file h, entryAt_of_stat hstat] at hentry'
  rw [hstat']
  split at hentry' <;> cases hentry'
  · rename_i heq
    rw [if_pos heq]
  · rename_i hne
    rw [if_neg hne]

end Workspace

end Unimported
