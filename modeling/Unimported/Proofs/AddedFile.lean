import Unimported.Proofs.DeletedFiles
import Unimported.Proofs.FileTree.Addition
import Unimported.Proofs.FileTree.NormalForm

/-!
# `Unimported.Proofs.AddedFile`: a scan after one file has been added

A new file takes nothing away from the other files. What an import has reached, it reaches
still, since every variant that exists counts and not the first one only. And a new file
that imports nothing gives nothing: a variant that exists only now lies at a location where
nothing was before, so it reaches none of the files that were found there. The one thing
that can be new besides the file are directories made for it: a directory is told from a
file by asking what its path names, and a path can be too long to ask. The statements:

* `found_cases_of_addsFile`: what is found besides the new file.
* `imports_after`, `reaches_of_addsFile`: what was imported and reached is so still.
* `imports_before`, `pathExists_before`, `reaches_before`: what is imported and reached was so
  before, if there are no links and the new file imports nothing.
* `scan_addFile`: the two reports.
-/

set_option autoImplicit false

namespace Unimported

open Unimported.Path

/-- Whether a path leads from the directory at `place` to a directory that was made around a
file at `loc`, and is too long to be asked what it names. -/
def MadeTooLong (w : Workspace) (root : Path) (place loc : Location) (p : Path) : Prop :=
  (locationFrom place p ≠ loc ∧ locationFrom place p <:+ loc ∧
    w.tree.entryAt (locationFrom place p) = none) ∧
  pathLimit ≤ (root.join p).bytes.length

instance (w : Workspace) (root : Path) (place loc : Location) (p : Path) :
    Decidable (MadeTooLong w root place loc p) :=
  inferInstanceAs (Decidable ((_ ∧ _ ∧ _) ∧ _))

section

variable {w w' : Workspace} {c : Config} {root : Path} {place loc : Location}
  {contents : List UInt8}

/-! ### Finding files -/

/-- What a walk comes to is no directory. -/
theorem isDir_of_walked {names : List Name} :
    ∀ {dir : Path}, Walked w c dir names → w.isDir (dir.join (ofNames names)) = false := by
  induction names with
  | nil => exact fun h => absurd h id
  | cons name rest ih =>
    intro dir h
    cases rest with
    | nil =>
      rw [ofNames_singleton]
      obtain ⟨-, -, -, hnotDir, -⟩ := h
      exact hnotDir
    | cons next rest =>
      rw [← join_join_names dir name (by simp)]
      exact ih h.2.2

/-- A walk still comes to a file, unless the file is a link that leads to a directory
now. -/
theorem walked_of_addsFile (h : w.AddsFile w' loc contents) {names : List Name} :
    ∀ {dir : Path}, Walked w c dir names → w'.isDir (dir.join (ofNames names)) = false →
      Walked w' c dir names := by
  induction names with
  | nil => exact fun hwalked => absurd hwalked id
  | cons name rest ih =>
    intro dir hwalked hnotDir
    cases rest with
    | nil =>
      rw [ofNames_singleton] at hnotDir
      obtain ⟨e, hlist, hvendor, -, hsource⟩ := hwalked
      exact ⟨e, Workspace.mem_list_of_addsFile h hlist, hvendor, hnotDir, hsource⟩
    | cons next rest =>
      rw [← join_join_names dir name (by simp)] at hnotDir
      obtain ⟨hlist, hvendor, hwalked⟩ := hwalked
      exact ⟨Workspace.mem_list_of_addsFile h hlist, hvendor, ih hwalked hnotDir⟩

/-- A walk that comes to an entry that was there before came to it before. -/
theorem walked_before (h : w.AddsFile w' loc contents) {names : List Name} :
    ∀ {dir : Path} {l : Location} {e : Entry}, w.stat dir = .ok (l, .directory) →
      w.tree.entryAt (names.reverse ++ l) = some e → Walked w' c dir names →
      Walked w c dir names := by
  induction names with
  | nil => exact fun _ _ hwalked => hwalked
  | cons name rest ih =>
    intro dir l e hdir he hwalked
    rw [List.reverse_cons, List.append_assoc, List.singleton_append] at he
    -- Something stands further down, so the first entry was there before.
    obtain ⟨first, hfirst⟩ := FileTree.exists_entryAt_of_append he
    have hsame : ∀ e', (name, e') ∈ w'.list dir → e' = first := by
      intro e' hmem
      have he' := (Workspace.mem_list_iff_entryAt (Workspace.stat_of_addsFile h hdir)).mp hmem
      rw [h.tree.kept _ _ hfirst] at he'
      exact (Option.some.inj he').symm
    have hlist : (name, first) ∈ w.list dir := (Workspace.mem_list_iff_entryAt hdir).mpr hfirst
    cases rest with
    | nil =>
      obtain ⟨e', hmem, hvendor, hnotDir, hsource⟩ := hwalked
      obtain rfl := hsame e' hmem
      refine ⟨e', hlist, hvendor, ?_, hsource⟩
      by_contra hisDir
      rw [Workspace.isDir_of_addsFile h (Bool.not_eq_false _ ▸ hisDir)] at hnotDir
      cases hnotDir
    | cons next rest =>
      obtain ⟨hmem, hvendor, hwalked⟩ := hwalked
      obtain rfl := hsame _ hmem
      obtain ⟨r, hr⟩ := stat_of_walked hwalked
      have hnext := Workspace.stat_join hdir hfirst (by simp) (length_lt_of_stat hr)
      exact ⟨hlist, hvendor, ih hnext he hwalked⟩

/-- What is found besides the new file was found before, or it is a directory whose path
is too long. -/
theorem found_cases_of_addsFile (h : w.AddsFile w' loc contents)
    (hroot : w.stat root = .ok (place, .directory)) {p : Path} (hp : p ∈ found w' c root) :
    p ∈ found w c root ∨ locationFrom place p = loc ∨ MadeTooLong w root place loc p := by
  obtain ⟨hvendor, hinput, names, hwalked, rfl⟩ := mem_found_iff.mp hp
  have hne := ne_nil_of_walked hwalked
  have hroot' := Workspace.stat_of_addsFile h hroot
  obtain ⟨e, he⟩ := entryAt_of_walked hwalked hroot'
  rw [MadeTooLong, locationFrom_ofNames hne]
  rcases h.tree.entryAt_cases he with hold | ⟨heq, -⟩ | ⟨hother, haround, hnone, rfl⟩
  · exact Or.inl (mem_found_iff.mpr
      ⟨hvendor, hinput, names, walked_before h hroot hold hwalked, rfl⟩)
  · exact Or.inr (Or.inl heq)
  · refine Or.inr (Or.inr ⟨⟨hother, haround, hnone⟩, ?_⟩)
    by_contra hshort
    -- A directory that can be asked is not taken for a file.
    have hstat := stat_join_below hroot' hne he rfl (Nat.not_le.mp hshort)
    exact Workspace.stat_ne_directory (isDir_of_walked hwalked) hstat

/-! ### Nothing is lost -/

/-- A file that could be read is found and read as before. -/
theorem imports_after (h : w.AddsFile w' loc contents) {f : SourceFile} {s : List Char}
    (himports : Imports w c root f s) : Imports w' c root f s := by
  obtain ⟨hf, text, hread, hs⟩ := himports
  have hread' := Workspace.readText_of_addsFile h hread
  refine ⟨?_, text, hread', hs⟩
  have hfound : f.relative ∈ found w c root := List.mem_map_of_mem hf
  obtain ⟨hvendor, hinput, names, hwalked, hnames⟩ := mem_found_iff.mp hfound
  rw [eq_under_of_mem hf, hnames] at hread' ⊢
  refine under_mem_sourceFiles_iff.mpr (mem_found_iff.mpr
    ⟨hvendor, hinput, names, walked_of_addsFile h hwalked ?_, rfl⟩)
  obtain ⟨l, bytes, hstat, -⟩ := Workspace.readText_eq_ok_iff.mp hread'
  simp only [SourceFile.under] at hstat
  simp only [Workspace.isDir, hstat]

/-- What an import has reached, it still reaches. -/
theorem reaches_of_addsFile (h : w.AddsFile w' loc contents) {cs : List Component}
    (hreaches : Reaches w c root cs) : Reaches w' c root cs := by
  obtain ⟨f, s, himports, q, hq, hexists, hcs⟩ := hreaches
  exact ⟨f, s, imports_after h himports, q, hq, Workspace.pathExists_of_addsFile h hexists, hcs⟩

/-- What is reported after the addition was reported before, or is the new file, or is a directory
that was made for it under a path that is too long to be asked for. -/
theorem mem_unusedFiles_cases (h : w.AddsFile w' loc contents)
    (hroot : w.stat root = .ok (place, .directory)) {p : Path}
    (hp : p ∈ (scan w' c root).unusedFiles) :
    p ∈ (scan w c root).unusedFiles ∨ locationFrom place p = loc ∨
      MadeTooLong w root place loc p := by
  obtain ⟨hfound, hentry, hnot⟩ := mem_unusedFiles_iff.mp hp
  refine (found_cases_of_addsFile h hroot hfound).imp_left fun hfound => ?_
  exact mem_unusedFiles_iff.mpr
    ⟨hfound, hentry, fun hreaches => hnot (reaches_of_addsFile h hreaches)⟩

/-! ### Nothing is gained -/

/-- What was found leads to the same entry as before, in a tree without links. -/
theorem stat_of_found (h : w.AddsFile w' loc contents) (hfree : w.tree.LinkFree)
    (hroot : w.stat root = .ok (place, .directory)) {p : Path} (hp : p ∈ found w c root) :
    w'.stat (root.join p) = w.stat (root.join p) := by
  obtain ⟨-, -, names, hwalked, rfl⟩ := mem_found_iff.mp hp
  by_cases hlimit : (root.join (ofNames names)).bytes.length < pathLimit
  · obtain ⟨e, he⟩ := entryAt_of_walked hwalked hroot
    have hstat := stat_join_names hfree hroot (ne_nil_of_walked hwalked) he hlimit
    rw [hstat, Workspace.stat_of_addsFile h hstat]
  · have hlong := Nat.not_lt.mp hlimit
    rw [Workspace.stat_of_pathLimit_le hlong, Workspace.stat_of_pathLimit_le hlong]

/-- No file gets lost in a tree without links. -/
theorem found_of_addsFile (h : w.AddsFile w' loc contents) (hfree : w.tree.LinkFree)
    (hroot : w.stat root = .ok (place, .directory)) {p : Path} (hp : p ∈ found w c root) :
    p ∈ found w' c root := by
  have hstat := stat_of_found h hfree hroot hp
  obtain ⟨hvendor, hinput, names, hwalked, rfl⟩ := mem_found_iff.mp hp
  refine mem_found_iff.mpr ⟨hvendor, hinput, names, walked_of_addsFile h hwalked ?_, rfl⟩
  rw [← isDir_of_walked hwalked, Workspace.isDir, Workspace.isDir, hstat]

/-- If the new file imports nothing, no import is new. -/
theorem imports_before (h : w.AddsFile w' loc contents) (hfree : w.tree.LinkFree)
    (hroot : w.stat root = .ok (place, .directory))
    (hempty : ∀ text, Utf8.decode contents = some text → Specifier.specifiers text = [])
    {f : SourceFile} {s : List Char} (himports : Imports w' c root f s) :
    Imports w c root f s := by
  obtain ⟨hf, text, hread, hs⟩ := himports
  have hfound : f.relative ∈ found w' c root := List.mem_map_of_mem hf
  have hunder := eq_under_of_mem hf
  rw [hunder] at hread
  obtain ⟨l, bytes, hstat, hdecode⟩ := Workspace.readText_eq_ok_iff.mp hread
  simp only [SourceFile.under] at hstat
  have hshort := length_lt_of_stat hstat
  rcases found_cases_of_addsFile h hroot hfound with hold | hnew | ⟨-, hlong⟩
  · rw [stat_of_found h hfree hroot hold] at hstat
    rw [hunder]
    exact ⟨under_mem_sourceFiles_iff.mpr hold, text,
      Workspace.readText_eq_ok_iff.mpr ⟨l, bytes, hstat, hdecode⟩, hs⟩
  · -- The new file has no specifier.
    exfalso
    obtain ⟨-, -, names, hwalked, hnames⟩ := mem_found_iff.mp hfound
    have hne := ne_nil_of_walked hwalked
    rw [hnames] at hstat hshort hnew
    rw [locationFrom_ofNames hne] at hnew
    have hadded := h.tree.added
    rw [← hnew] at hadded
    have hfile := stat_join_below (Workspace.stat_of_addsFile h hroot) hne hadded rfl hshort
    rw [hfile] at hstat
    cases hstat
    rw [hempty text hdecode] at hs
    cases hs
  · omega

/-- A variant that leads to a file that was found existed before. -/
theorem pathExists_before (h : w.AddsFile w' loc contents) (hfree : w.tree.LinkFree)
    (hroot : w.stat root = .ok (place, .directory)) (hslash : ∀ e ∈ c.extensions, '/' ∉ e.toList)
    {p dir specifier q : Path} (hp : p ∈ found w c root)
    (hq : q ∈ candidatePaths c.extensions root dir specifier) (hexists : w'.pathExists q = true)
    (hcs : q.normalComponents = root.normalComponents ++ p.components) :
    w.pathExists q = true := by
  obtain ⟨-, -, names, hwalked, rfl⟩ := mem_found_iff.mp hp
  obtain ⟨e, he⟩ := entryAt_of_walked hwalked hroot
  obtain ⟨l, e', hstat⟩ := Workspace.pathExists_iff.mp hexists
  rw [components_ofNames] at hcs
  obtain ⟨name, hname⟩ : ∃ name, Component.name name ∈ q.normalComponents := by
    obtain ⟨n, rest, rfl⟩ := List.exists_cons_of_ne_nil (ne_nil_of_walked hwalked)
    exact ⟨n.bytes, by simp [hcs, nameComponents]⟩
  -- The variant leads to the location of the file.
  have hl := Workspace.location_of_stat (h.tree.linkFree hfree) hstat
  rw [h.current] at hl
  have hlocation : l = names.reverse ++ place := by
    refine List.map_injective_iff.mpr Name.bytes_injective ?_
    rw [hl, hcs, List.foldl_append, ← Workspace.location_of_stat hfree hroot, nameComponents,
      foldl_follow_names, ← List.map_reverse, ← List.map_append]
  rw [hlocation] at hl
  -- It is written in its normal form, which leads there in the smaller tree as well.
  have hwrite : q = ofComponents q.normalComponents := by
    refine candidate_eq_ofComponents hslash hq fun hlone => ?_
    rw [hlone, List.mem_singleton] at hname
    cases hname
  have hstart : q.isAbsolute = true ∨ w.tree.entryAt w.current = some .directory := by
    refine (Workspace.start_of_stat hroot).imp_left fun habs => ?_
    rw [← root_mem_normalComponents_iff] at habs ⊢
    rw [hcs]
    exact List.mem_append_left _ habs
  obtain ⟨hzero, hlimit, -, -⟩ := Workspace.locate_eq_ok_iff.mp (Workspace.stat_eq_ok_iff.mp hstat)
  rw [hwrite] at hzero hlimit hstart ⊢
  exact Workspace.pathExists_iff.mpr ⟨_, e, Workspace.stat_ofComponents hfree
    (isNormal_normalComponents q) (List.ne_nil_of_mem hname) hstart hl he hzero hlimit⟩

/-- If the new file imports nothing, no file that was found is reached that was not. -/
theorem reaches_before (h : w.AddsFile w' loc contents) (hfree : w.tree.LinkFree)
    (hroot : w.stat root = .ok (place, .directory)) (hslash : ∀ e ∈ c.extensions, '/' ∉ e.toList)
    (hempty : ∀ text, Utf8.decode contents = some text → Specifier.specifiers text = [])
    {p : Path} (hp : p ∈ found w c root) (hreaches : Reaches w' c root p.components) :
    Reaches w c root p.components := by
  obtain ⟨f, s, himports, q, hq, hexists, hcs⟩ := hreaches
  exact ⟨f, s, imports_before h hfree hroot hempty himports, q, hq,
    pathExists_before h hfree hroot hslash hp hq hexists hcs, hcs⟩

/-- What was found is neither the new file nor anything made for it. -/
theorem not_new_of_found (h : w.AddsFile w' loc contents)
    (hroot : w.stat root = .ok (place, .directory)) {p : Path} (hp : p ∈ found w c root) :
    locationFrom place p ≠ loc ∧ ¬MadeTooLong w root place loc p := by
  obtain ⟨-, -, names, hwalked, rfl⟩ := mem_found_iff.mp hp
  obtain ⟨e, he⟩ := entryAt_of_walked hwalked hroot
  rw [MadeTooLong, locationFrom_ofNames (ne_nil_of_walked hwalked), he]
  refine ⟨fun heq => ?_, by simp⟩
  rw [heq, h.tree.vacant] at he
  cases he

end

/-! ### The two reports -/

/-- Adding a file makes no other file unused, under a root that was a directory before.

1. A second scan reports the new file, files that the first scan has reported, and nothing
   else but directories made for the new file whose paths are too long to be told from
   files.
2. If there are no links, the extensions lead to no other directory and the new file has no
   relative imports, then the second scan reports all files that the first one has
   reported, whatever variants of imports the new file adds. -/
theorem scan_addFile (w w' : Workspace) (c : Config) (root : Path) (place loc : Location)
    (contents : List UInt8) (hroot : w.stat root = .ok (place, .directory))
    (hadd : w.AddsFile w' loc contents) :
    (∀ p ∈ (scan w' c root).unusedFiles, p ∈ (scan w c root).unusedFiles ∨
      locationFrom place p = loc ∨ MadeTooLong w root place loc p) ∧
    (w.tree.LinkFree → (∀ e ∈ c.extensions, '/' ∉ e.toList) →
      (∀ text, Utf8.decode contents = some text → Specifier.specifiers text = []) →
      (scan w c root).unusedFiles = (scan w' c root).unusedFiles.filter fun p =>
        locationFrom place p ≠ loc ∧ ¬MadeTooLong w root place loc p) := by
  refine ⟨fun p hp => mem_unusedFiles_cases hadd hroot hp, fun hfree hslash hempty => ?_⟩
  refine eq_of_mem_iff (sorted_unusedFiles _ _ _) ((sorted_unusedFiles _ _ _).filter _)
    fun p => ?_
  rw [List.mem_filter, decide_eq_true_eq]
  constructor
  · intro hp
    obtain ⟨hfound, hentry, hnot⟩ := mem_unusedFiles_iff.mp hp
    refine ⟨mem_unusedFiles_iff.mpr ⟨found_of_addsFile hadd hfree hroot hfound, hentry,
      fun hreaches => hnot ?_⟩, not_new_of_found hadd hroot hfound⟩
    exact reaches_before hadd hfree hroot hslash hempty hfound hreaches
  · rintro ⟨hp, hother, hshort⟩
    exact (mem_unusedFiles_cases hadd hroot hp).resolve_right (not_or.mpr ⟨hother, hshort⟩)

/-- Where all files are empty, nothing is reached. -/
theorem not_reaches_of_empty {w : Workspace} {c : Config} {root : Path} {cs : List Component}
    (h : ∀ loc bytes, w.tree.entryAt loc = some (.file bytes) → bytes = []) :
    ¬Reaches w c root cs := by
  rintro ⟨f, s, ⟨-, text, hread, hs⟩, -⟩
  obtain ⟨l, bytes, hstat, hdecode⟩ := Workspace.readText_eq_ok_iff.mp hread
  rw [h l bytes (Workspace.entryAt_of_stat hstat)] at hdecode
  obtain rfl : [] = text := Option.some.inj hdecode
  cases hs

/-- One page in the directory `r`. -/
def lonePage : Workspace :=
  Workspace.ofFiles [("r/a.ts", "")]

/-- The directory `r`, with so many slashes behind it that no name fits. -/
def slashedRoot : Path := ⟨114 :: List.replicate 4080 slash⟩

/-- The location of `r`. -/
def lonePlace : Location := Location.ofString "r"

/-- A directory that is not there yet, with the name of a source file. -/
def longDirectory : Name := ⟨Utf8.encode "long-named-dir.ts".toList, by decide +kernel⟩

/-- The location of a new file in this directory. -/
def newFile : Location :=
  ⟨Utf8.encode "n.ts".toList, by decide +kernel⟩ :: longDirectory :: lonePlace

set_option maxRecDepth 10000 in
/-- The root with its many slashes is the directory of the page. -/
theorem stat_slashedRoot : lonePage.stat slashedRoot = .ok (lonePlace, .directory) := by
  decide +kernel

set_option maxRecDepth 10000 in
/-- The root with its many slashes is not taken for the standard input. -/
theorem slashedRoot_ne_standardInput : slashedRoot.sameAs standardInput = false := by
  decide +kernel

/-- Something else than the new file can come to be reported: the directory around it, if
the path of this directory is too long. -/
theorem scan_addFile_reports_directory :
    lonePage.stat slashedRoot = .ok (lonePlace, .directory) ∧
    lonePage.AddsFile (lonePage.addFile newFile []) newFile [] ∧
    ofNames [longDirectory]
      ∈ (scan (lonePage.addFile newFile []) { vendorDir := "" } slashedRoot).unusedFiles ∧
    locationFrom lonePlace (ofNames [longDirectory]) ≠ newFile ∧
    ofNames [longDirectory] ∉ (scan lonePage { vendorDir := "" } slashedRoot).unusedFiles := by
  have hadd : lonePage.AddsFile (lonePage.addFile newFile []) newFile [] :=
    Workspace.addsFile_addFile (by decide +kernel) []
  have hroot := Workspace.stat_of_addsFile hadd stat_slashedRoot
  -- A directory with a path this long is not seen as one, so that the walk takes it for a file.
  have hlong : pathLimit ≤ (slashedRoot.join (ofNames [longDirectory])).bytes.length := by
    decide +kernel
  have hvendor : ∀ p, ({ vendorDir := "" } : Config).isVendorPath p = false := fun _ => rfl
  have hempty : ∀ loc bytes,
      (lonePage.addFile newFile []).tree.entryAt loc = some (.file bytes) → bytes = [] := by
    intro loc bytes he
    rcases hadd.tree.entryAt_cases he with hold | ⟨-, hnew⟩ | ⟨-, -, -, hdirectory⟩
    · have hall := FileTree.entry_of_all (fun e => decide (e.isFile = true → e = .file [])) rfl
        (by decide +kernel) hold
      exact Entry.file.inj (of_decide_eq_true hall rfl)
    · exact Entry.file.inj hnew
    · cases hdirectory
  have hwalked : Walked (lonePage.addFile newFile []) { vendorDir := "" } slashedRoot
      [longDirectory] := by
    refine ⟨.directory, ?_, by simp [hvendor], ?_, by decide +kernel⟩
    · exact Workspace.mem_list_iff.mpr
        ⟨lonePlace, hroot, FileTree.entryAt_above hadd.tree.added⟩
    · rw [← ofNames_singleton]
      simp only [Workspace.isDir, Workspace.stat_of_pathLimit_le hlong]
  have hmade : MadeTooLong lonePage slashedRoot lonePlace newFile (ofNames [longDirectory]) :=
    ⟨by decide +kernel, hlong⟩
  refine ⟨stat_slashedRoot, hadd, ?_, hmade.1.1, fun hold => ?_⟩
  · exact mem_unusedFiles_iff.mpr ⟨mem_found_iff.mpr
      ⟨hvendor _, slashedRoot_ne_standardInput, _, hwalked, rfl⟩, by decide +kernel,
      not_reaches_of_empty hempty⟩
  · exact (not_new_of_found hadd stat_slashedRoot (mem_unusedFiles_iff.mp hold).1).2 hmade

/-- A page with a part, and a file that nothing imports. -/
def pageWithLostFile : Workspace :=
  Workspace.ofFiles [("app/index.ts", "import './part'"), ("app/part.tsx", ""),
    ("app/lost.ts", "import './part'")]

/-- The location of a new file in a new directory `part`. -/
def partFile : Location := Location.ofString "app/part/other.ts"

/-- Here the import leads to the new directory as well as to the part. The second scan
reports the new file besides the lost one. -/
theorem scan_addFile_pageWithLostFile :
    pageWithLostFile.stat (Path.ofString "app") = .ok (Location.ofString "app", .directory) ∧
    pageWithLostFile.AddsFile (pageWithLostFile.addFile partFile []) partFile [] ∧
    (scan (pageWithLostFile.addFile partFile []) {} (Path.ofString "app")).unusedFiles
      = [Path.ofString "lost.ts", Path.ofString "part/other.ts"] ∧
    (scan pageWithLostFile {} (Path.ofString "app")).unusedFiles = [Path.ofString "lost.ts"] := by
  have hroot : pageWithLostFile.stat (Path.ofString "app")
      = .ok (Location.ofString "app", .directory) := by decide +kernel
  have hadd : pageWithLostFile.AddsFile (pageWithLostFile.addFile partFile []) partFile [] :=
    Workspace.addsFile_addFile (by decide +kernel) []
  have hafter : (scan (pageWithLostFile.addFile partFile []) {} (Path.ofString "app")).unusedFiles
      = [Path.ofString "lost.ts", Path.ofString "part/other.ts"] := by decide +kernel
  refine ⟨hroot, hadd, hafter, ?_⟩
  have hfree : pageWithLostFile.tree.LinkFree := FileTree.linkFree_of_all (by decide +kernel)
  have hempty : ∀ text, Utf8.decode [] = some text → Specifier.specifiers text = [] := by
    intro text htext
    obtain rfl : [] = text := Option.some.inj htext
    rfl
  rw [(scan_addFile pageWithLostFile _ {} (Path.ofString "app") _ partFile [] hroot hadd).2 hfree
    (by decide) hempty, hafter]
  decide +kernel

end Unimported
