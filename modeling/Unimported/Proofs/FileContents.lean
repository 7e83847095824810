import Unimported.Proofs.FileTree.Contents
import Unimported.Proofs.Scan

/-!
# `Unimported.Proofs.FileContents`: what a scan sees of the contents of files

A scan reads its source files and nothing else, and of each of them it keeps the
specifiers. A file that cannot be read counts as one without specifiers. So two trees of
the same outline give the same report as far as their source files show the same
specifiers. The statements:

* `found_of_sameOutline`: contents have no part in what is found.
* `reaches_of_seenSpecifiers`, `unresolvedIn_of_seenSpecifiers`: what imports mean depends on
  contents only through the specifiers that are seen.
* `readErrors_of_sameOutline`, `readFailure_of_sameOutline`: two scans list the same
  failures, except for source files that are UTF-8 in one tree only.
* `seenSpecifiers_place_cases`: what becomes of the specifiers if one file is written anew.
* `scan_sameOutline`: the two reports.
-/

set_option autoImplicit false

namespace Unimported

open Unimported.Path

/-- The specifiers that a scan sees in a source file. A file that cannot be read as a text
has none. -/
def seenSpecifiers (w : Workspace) (f : SourceFile) : List (List Char) :=
  match w.readText f.path with
  | .ok text => Specifier.specifiers text
  | .error _ => []

/-- Whether a source file leads to contents that are UTF-8. -/
def isText (w : Workspace) (f : SourceFile) : Bool :=
  match w.readText f.path with
  | .ok _ => true
  | .error _ => false

/-- What a file imports is what is seen in it. -/
theorem imports_iff_seenSpecifiers {w : Workspace} {c : Config} {root : Path} {f : SourceFile}
    {s : List Char} :
    Imports w c root f s ↔ f ∈ (discover w c root).sourceFiles ∧ s ∈ seenSpecifiers w f := by
  unfold Imports seenSpecifiers
  refine and_congr_right fun _ => ?_
  cases w.readText f.path <;> simp

/-- A reference has no target if none of its variants exists, and variants are the same whatever
the contents. -/
theorem unresolvedIn_eq (w : Workspace) (c : Config) (root : Path) (f : SourceFile) :
    unresolvedIn w c root f = (seenSpecifiers w f).filter fun s =>
      (candidatePaths c.extensions root f.directory (Path.ofChars s)).all
        fun q => !w.pathExists q := by
  unfold unresolvedIn seenSpecifiers
  cases w.readText f.path <;> rfl

/-- A directory is told by its outline. -/
theorem Entry.outline_eq_directory_iff {e : Entry} : e.outline = .directory ↔ e = .directory := by
  cases e <;> simp [outline]

section Outline

variable {w w' : Workspace} {c : Config} {root : Path}

/-! ### Finding files -/

/-- A walk comes to the same files, whatever is in them. -/
theorem walked_of_sameOutline (h : w.SameOutline w') {names : List Name} :
    ∀ {dir : Path}, Walked w c dir names → Walked w' c dir names := by
  induction names with
  | nil => exact fun hwalked => hwalked
  | cons name rest ih =>
    intro dir hwalked
    cases rest with
    | nil =>
      obtain ⟨e, hlist, hvendor, hnotDir, hsource⟩ := hwalked
      obtain ⟨e', hlist', houtline⟩ := Workspace.exists_mem_list h hlist
      refine ⟨e', hlist', fun hdir => hvendor ⟨?_, hdir.2⟩, ?_, hsource⟩
      · rw [← Entry.outline_eq_directory_iff, ← houtline, hdir.1]
        rfl
      · rw [Workspace.isDir_of_sameOutline h, hnotDir]
    | cons next rest =>
      obtain ⟨hlist, hvendor, hwalked⟩ := hwalked
      obtain ⟨e', hlist', houtline⟩ := Workspace.exists_mem_list h hlist
      obtain rfl := Entry.outline_eq_directory_iff.mp houtline
      exact ⟨hlist', hvendor, ih hwalked⟩

/-- The same files are found in trees of the same outline. -/
theorem found_of_sameOutline (h : w.SameOutline w') : found w' c root = found w c root := by
  refine eq_of_mem_iff (sorted_found _ _ _) (sorted_found _ _ _) fun p => ?_
  rw [mem_found_iff, mem_found_iff]
  simp only [show ∀ names, Walked w' c root names ↔ Walked w c root names from
    fun names => ⟨walked_of_sameOutline h.symm, walked_of_sameOutline h⟩]

/-- Trees of the same outline have the same source files. -/
theorem sourceFiles_of_sameOutline (h : w.SameOutline w') :
    (discover w' c root).sourceFiles = (discover w c root).sourceFiles := by
  rw [sourceFiles_eq, sourceFiles_eq, found_of_sameOutline h]

/-! ### Following imports -/

/-- More specifiers reach more. -/
theorem reaches_of_seenSpecifiers (h : w.SameOutline w')
    (hseen : ∀ f ∈ (discover w c root).sourceFiles, ∀ s ∈ seenSpecifiers w f,
      s ∈ seenSpecifiers w' f) {cs : List Component} (hreaches : Reaches w c root cs) :
    Reaches w' c root cs := by
  obtain ⟨f, s, himports, q, hq, hexists, hcs⟩ := hreaches
  obtain ⟨hf, hs⟩ := imports_iff_seenSpecifiers.mp himports
  refine ⟨f, s, imports_iff_seenSpecifiers.mpr ⟨?_, hseen f hf s hs⟩, q, hq, ?_, hcs⟩
  · rwa [sourceFiles_of_sameOutline h]
  · rwa [Workspace.pathExists_of_sameOutline h]

/-- In trees of the same outline a file in which the same is seen lacks the same targets. -/
theorem unresolvedIn_of_seenSpecifiers (h : w.SameOutline w') {f : SourceFile}
    (hseen : seenSpecifiers w' f = seenSpecifiers w f) :
    unresolvedIn w' c root f = unresolvedIn w c root f := by
  rw [unresolvedIn_eq, unresolvedIn_eq, hseen]
  simp only [Workspace.pathExists_of_sameOutline h]

/-- If the same is seen in every file, the same references have no target. -/
theorem unresolved_of_seenSpecifiers (h : w.SameOutline w')
    (hseen : ∀ f ∈ (discover w c root).sourceFiles, seenSpecifiers w' f = seenSpecifiers w f) :
    (scan w' c root).unresolved = (scan w c root).unresolved := by
  rw [unresolved_scan, unresolved_scan, found_of_sameOutline h]
  refine List.flatMap_congr fun p hp => ?_
  rw [unresolvedIn_of_seenSpecifiers h (hseen _ (under_mem_sourceFiles_iff.mpr hp))]

/-- More specifiers leave fewer files without an import. -/
theorem unusedFiles_subset_of_seenSpecifiers (h : w.SameOutline w')
    (hseen : ∀ f ∈ (discover w c root).sourceFiles, ∀ s ∈ seenSpecifiers w f,
      s ∈ seenSpecifiers w' f) :
    (scan w' c root).unusedFiles ⊆ (scan w c root).unusedFiles := by
  intro p hp
  obtain ⟨hfound, hentry, hnot⟩ := mem_unusedFiles_iff.mp hp
  rw [found_of_sameOutline h] at hfound
  exact mem_unusedFiles_iff.mpr
    ⟨hfound, hentry, fun hreaches => hnot (reaches_of_seenSpecifiers h hseen hreaches)⟩

/-- If the same is seen in every file, the same files are unused. -/
theorem unusedFiles_of_seenSpecifiers (h : w.SameOutline w')
    (hseen : ∀ f ∈ (discover w c root).sourceFiles, seenSpecifiers w' f = seenSpecifiers w f) :
    (scan w' c root).unusedFiles = (scan w c root).unusedFiles := by
  refine eq_of_mem_iff (sorted_unusedFiles _ _ _) (sorted_unusedFiles _ _ _) fun p => ⟨?_, ?_⟩
  · exact fun hp => unusedFiles_subset_of_seenSpecifiers h
      (fun f hf s hs => by rwa [hseen f hf]) hp
  · refine fun hp => unusedFiles_subset_of_seenSpecifiers h.symm (fun f hf s hs => ?_) hp
    rw [sourceFiles_of_sameOutline h] at hf
    rwa [← hseen f hf]

/-! ### Reading files -/

/-- Two scans list the same failures to read, except for files that are UTF-8 in one tree
only. -/
theorem readErrors_of_sameOutline (h : w.SameOutline w') :
    (scan w' c root).readErrors.filter
        (fun e => isText w' (.under root e.file) = isText w (.under root e.file))
      = (scan w c root).readErrors.filter
        fun e => isText w' (.under root e.file) = isText w (.under root e.file) := by
  rw [readErrors_scan, readErrors_scan, found_of_sameOutline h, List.filter_filterMap,
    List.filter_filterMap]
  refine List.filterMap_congr fun p _ => ?_
  cases hread : w.readText (root.join p) with
  | ok text =>
    cases hread' : w'.readText (root.join p) with
    | ok text' => rfl
    | error e' => simp [Option.filter_some, isText, SourceFile.under, hread, hread']
  | error e =>
    cases hread' : w'.readText (root.join p) with
    | ok text' => simp [Option.filter_some, isText, SourceFile.under, hread, hread']
    | error e' => rw [Workspace.error_eq_of_sameOutline h hread hread']

/-- A failure that only one of two scans lists belongs to a file that is UTF-8 in the
other tree. -/
theorem readFailure_of_sameOutline (h : w.SameOutline w') {r : ReadFailure}
    (hr : r ∈ (scan w' c root).readErrors) :
    r ∈ (scan w c root).readErrors ∨
      isText w (.under root r.file) = true ∧ r.error = IoError.notText.message := by
  obtain ⟨f, hf, e, hread', rfl⟩ := mem_readErrors_iff.mp hr
  rw [sourceFiles_of_sameOutline h] at hf
  cases hread : w.readText f.path with
  | error e' =>
    rw [Workspace.error_eq_of_sameOutline h hread hread']
    exact Or.inl (mem_readErrors_iff.mpr ⟨f, hf, e', hread, rfl⟩)
  | ok text =>
    rw [Workspace.error_of_sameOutline h hread hread']
    refine Or.inr ⟨?_, rfl⟩
    rw [← eq_under_of_mem hf, isText, hread]

/-- A path leads to the same entry if the entry at its end is the same. -/
theorem stat_of_entryAt (h : w.SameOutline w') {p : Path}
    (hentry : ∀ loc e, w.stat p = .ok (loc, e) → w'.tree.entryAt loc = w.tree.entryAt loc) :
    w'.stat p = w.stat p := by
  cases hstat : w.stat p with
  | error e => exact Workspace.error_stat_of_sameOutline h hstat
  | ok r =>
    obtain ⟨loc, e⟩ := r
    obtain ⟨e', hstat', -⟩ := Workspace.exists_stat_of_sameOutline h hstat
    have hsame := hentry loc e hstat
    rw [Workspace.entryAt_of_stat hstat', Workspace.entryAt_of_stat hstat] at hsame
    rw [hstat', Option.some.inj hsame]

/-- A report depends on nothing but the outline and the texts of the source files. -/
theorem scan_eq_of_readText (h : w.SameOutline w')
    (hread : ∀ f ∈ (discover w c root).sourceFiles, w'.readText f.path = w.readText f.path) :
    scan w' c root = scan w c root := by
  have hcandidates : (survey w' c root).candidates = (survey w c root).candidates := by
    rw [candidates_survey, candidates_survey, found_of_sameOutline h]
  have hresolve : resolve w' root = resolve w root :=
    funext fun refs => resolve_congr fun _ _ q _ => Workspace.pathExists_of_sameOutline h q
  have hfindings : (survey w' c root).findings = (survey w c root).findings := by
    rw [findings_survey, findings_survey, sourceFiles_of_sameOutline h]
    refine List.map_congr_left fun f hf => ?_
    rw [findingOf, findingOf, readReferences, readReferences, hread f hf, hresolve]
  show (survey w' c root).report c = (survey w c root).report c
  simp only [Survey.report, Survey.unusedFiles, Survey.targets, hcandidates, hfindings]
  rfl

/-- The specifiers in the contents of a file, which are none if the contents are not
UTF-8. -/
def specifiersIn (contents : List UInt8) : List (List Char) :=
  match Utf8.decode contents with
  | some text => Specifier.specifiers text
  | none => []

/-- What is seen in a file is what its contents name. -/
theorem seenSpecifiers_of_stat {f : SourceFile} {loc : Location} {contents : List UInt8}
    (h : w.stat f.path = .ok (loc, .file contents)) :
    seenSpecifiers w f = specifiersIn contents := by
  simp only [seenSpecifiers, specifiersIn, Workspace.readText, Workspace.read, h]
  cases Utf8.decode contents <;> rfl

/-- After one file has been written anew, a source file shows what it showed before, or it
leads to that file. -/
theorem seenSpecifiers_place_cases {loc : Location} {contents : List UInt8}
    (hfile : w.tree.entryAt loc = some (.file contents)) (new : List UInt8) (f : SourceFile) :
    seenSpecifiers (w.place loc (.file new)) f = seenSpecifiers w f ∨
      (seenSpecifiers w f = specifiersIn contents ∧
        seenSpecifiers (w.place loc (.file new)) f = specifiersIn new) := by
  cases hstat : w.stat f.path with
  | error e =>
    have hstat' := Workspace.error_stat_of_sameOutline (Workspace.sameOutline_place hfile new) hstat
    left
    rw [seenSpecifiers, seenSpecifiers, Workspace.readText_congr (hstat'.trans hstat.symm)]
  | ok r =>
    obtain ⟨l, e⟩ := r
    have hstat' := Workspace.stat_place hfile new hstat
    -- The source file is the one that has been written, or another one.
    by_cases hl : l = loc
    · have he := Workspace.entryAt_of_stat hstat
      rw [hl, hfile] at he
      obtain rfl := Option.some.inj he
      rw [if_pos hl] at hstat'
      exact Or.inr ⟨seenSpecifiers_of_stat hstat, seenSpecifiers_of_stat hstat'⟩
    · rw [if_neg hl] at hstat'
      left
      rw [seenSpecifiers, seenSpecifiers, Workspace.readText_congr (hstat'.trans hstat.symm)]

/-- A file without specifiers shows none after its contents have been corrupted, and no
other file shows anything else than before. -/
theorem seenSpecifiers_corrupt {loc : Location} {contents corrupt : List UInt8}
    (hfile : w.tree.entryAt loc = some (.file contents))
    (hempty : ∀ text, Utf8.decode contents = some text → Specifier.specifiers text = [])
    (hcorrupt : Utf8.decode corrupt = none) (f : SourceFile) :
    seenSpecifiers (w.place loc (.file corrupt)) f = seenSpecifiers w f := by
  have hnone : specifiersIn contents = [] := by
    unfold specifiersIn
    cases hdecode : Utf8.decode contents with
    | none => rfl
    | some text => exact hempty text hdecode
  rcases seenSpecifiers_place_cases hfile corrupt f with hsame | ⟨hbefore, hafter⟩
  · exact hsame
  · rw [hbefore, hafter, hnone, specifiersIn, hcorrupt]

end Outline

/-! ### The two reports -/

/-- File contents matter only through their specifiers, and a file that cannot be read
counts as an empty one.

1. Take two trees of the same outline. If every source file shows the same specifiers in
   both of them, the scans count, report and list as unresolved the same, and the failures
   to read differ only for source files that are UTF-8 in one tree only.
2. If the trees differ only in files to which no source file leads, by its own name or over
   links, the reports are equal.
3. If a file without relative imports gets contents that are not UTF-8, nothing of the
   report changes but the failures to read. -/
theorem scan_sameOutline (w : Workspace) (c : Config) (root : Path) :
    (∀ w', w.SameOutline w' →
      (∀ f ∈ (discover w c root).sourceFiles, seenSpecifiers w' f = seenSpecifiers w f) →
      (scan w' c root).scannedFiles = (scan w c root).scannedFiles ∧
      (scan w' c root).unusedFiles = (scan w c root).unusedFiles ∧
      (scan w' c root).unresolved = (scan w c root).unresolved ∧
      (scan w' c root).readErrors.filter
          (fun e => isText w' (.under root e.file) = isText w (.under root e.file))
        = (scan w c root).readErrors.filter
          (fun e => isText w' (.under root e.file) = isText w (.under root e.file)) ∧
      ∀ r ∈ (scan w' c root).readErrors, r ∈ (scan w c root).readErrors ∨
        isText w (.under root r.file) = true ∧ r.error = IoError.notText.message) ∧
    (∀ w', w.SameOutline w' →
      (∀ f ∈ (discover w c root).sourceFiles, ∀ loc e, w.stat f.path = .ok (loc, e) →
        w'.tree.entryAt loc = w.tree.entryAt loc) →
      scan w' c root = scan w c root) ∧
    ∀ loc contents corrupt, w.tree.entryAt loc = some (.file contents) →
      (∀ text, Utf8.decode contents = some text → Specifier.specifiers text = []) →
      Utf8.decode corrupt = none →
      scan (w.place loc (.file corrupt)) c root
        = { scan w c root with
            readErrors := (scan (w.place loc (.file corrupt)) c root).readErrors } := by
  have hcount : ∀ w', w.SameOutline w' →
      (scan w' c root).scannedFiles = (scan w c root).scannedFiles := by
    intro w' h
    rw [scannedFiles_scan, scannedFiles_scan, found_of_sameOutline h]
  refine ⟨fun w' h hseen => ?_, fun w' h hother => ?_, ?_⟩
  · exact ⟨hcount w' h, unusedFiles_of_seenSpecifiers h hseen, unresolved_of_seenSpecifiers h hseen,
      readErrors_of_sameOutline h, fun r hr => readFailure_of_sameOutline h hr⟩
  · exact scan_eq_of_readText h fun f hf =>
      Workspace.readText_congr (stat_of_entryAt h (hother f hf))
  · intro loc contents corrupt hfile hempty hcorrupt
    have h := Workspace.sameOutline_place hfile corrupt
    have hseen := fun f (_ : f ∈ (discover w c root).sourceFiles) =>
      seenSpecifiers_corrupt hfile hempty hcorrupt f
    -- The reports are compared field by field; the root is the same as it is given.
    show ScanReport.mk root (scan (w.place loc (.file corrupt)) c root).scannedFiles
      (scan (w.place loc (.file corrupt)) c root).unusedFiles _
      (scan (w.place loc (.file corrupt)) c root).unresolved = _
    rw [hcount _ h, unusedFiles_of_seenSpecifiers h hseen, unresolved_of_seenSpecifiers h hseen]
    rfl

/-- A page and a part that it imports. The part imports a package. -/
def pageWithPart : Workspace :=
  Workspace.ofFiles [("app/index.ts", "import './part'"), ("app/part.ts", "import 'zone.js'")]

/-- The location of the part. -/
def partLocation : Location := Location.ofString "app/part.ts"

/-- With the part corrupted, the report has one failure more and is the same otherwise. -/
theorem scan_sameOutline_corruptPart :
    pageWithPart.tree.entryAt partLocation
      = some (.file (Utf8.encode "import 'zone.js'".toList)) ∧
    Utf8.decode [0xff] = none ∧
    scan (pageWithPart.place partLocation (.file [0xff])) {} (Path.ofString "app")
      = { scan pageWithPart {} (Path.ofString "app") with
          readErrors := [⟨Path.ofString "part.ts", IoError.notText.message⟩] } := by
  have hfile : pageWithPart.tree.entryAt partLocation
      = some (.file (Utf8.encode "import 'zone.js'".toList)) := by decide +kernel
  have hempty : ∀ text, Utf8.decode (Utf8.encode "import 'zone.js'".toList) = some text →
      Specifier.specifiers text = [] := by
    have hdecode : Utf8.decode (Utf8.encode "import 'zone.js'".toList)
        = some "import 'zone.js'".toList := by decide +kernel
    have hnone : Specifier.specifiers "import 'zone.js'".toList = [] := by decide +kernel
    intro text htext
    rw [hdecode] at htext
    rwa [← Option.some.inj htext]
  have hcorrupt : Utf8.decode [0xff] = none := by decide +kernel
  have herrors : (scan (pageWithPart.place partLocation (.file [0xff])) {}
      (Path.ofString "app")).readErrors
      = [⟨Path.ofString "part.ts", IoError.notText.message⟩] := by decide +kernel
  refine ⟨hfile, hcorrupt, ?_⟩
  rw [← herrors]
  exact (scan_sameOutline pageWithPart {} (Path.ofString "app")).2.2 partLocation _ [0xff] hfile
    hempty hcorrupt

end Unimported
