import Unimported.Proofs.Candidate
import Unimported.Proofs.FileTree.Deletion
import Unimported.Proofs.Scan

/-!
# `Unimported.Proofs.DeletedFiles`: deleting what a scan reports

A reported file can be deleted: no import of any other file changes what it means. In a
tree without links, a path leads to a reported file only if its normal form lies under
the root, and then the file would have been reached. The statements:

* `found_deleteFiles`: a second scan finds the files that are left.
* `pathExists_deleteReported`: no variant of a reference has led to a reported file.
* `scan_deleteReported`: the second scan says about the files that are left what the
  first one has said about them.
-/

set_option autoImplicit false

namespace Unimported

open Unimported.Path

/-- The location of a path that is seen from the directory at `loc`, if it is made of
names. -/
def locationFrom (loc : Location) (p : Path) : Location :=
  (p.segments.filterMap Name.ofBytes?).reverse ++ loc

/-- What a scan of a root at the location `loc` reports, as far as it is a file. A name in
a directory can be reported too, if its path is too long to ask what it is. -/
def reportedFiles (w : Workspace) (c : Config) (root : Path) (loc : Location) : List Path :=
  (scan w c root).unusedFiles.filter fun p =>
    (w.tree.entryAt (locationFrom loc p)).any Entry.isFile

/-- The workspace without the files that a scan of a root at the location `loc` reports. -/
def deleteReported (w : Workspace) (c : Config) (root : Path) (loc : Location) : Workspace :=
  w.deleteFiles ((reportedFiles w c root loc).map (locationFrom loc))

/-- Names lead from a location to the location with these names below it. -/
theorem locationFrom_ofNames {names : List Name} (hne : names ≠ []) (loc : Location) :
    locationFrom loc (ofNames names) = names.reverse ++ loc := by
  rw [locationFrom, segments_ofNames hne, List.filterMap_map]
  congr 2
  have hread : (Name.ofBytes? ∘ Name.bytes) = some := funext fun n => n.ofBytes?_bytes
  rw [hread, List.filterMap_some]

/-! ### Finding the files that are left -/

/-- A walk comes to the same files as before, except that those at `locs` are gone. -/
theorem walked_deleteFiles {w : Workspace} {c : Config} (hfree : w.tree.LinkFree)
    {locs : List Location} {names : List Name} :
    ∀ {dir : Path} {loc : Location}, w.stat dir = .ok (loc, .directory) →
      (Walked (w.deleteFiles locs) c dir names ↔ Walked w c dir names ∧
        ∀ e, w.tree.entryAt (names.reverse ++ loc) = some e →
          names.reverse ++ loc ∈ locs → e.isFile = false) := by
  induction names with
  | nil =>
    intro dir loc _
    simp [Walked]
  | cons name rest ih =>
    intro dir loc hdir
    have hlist : ∀ e, (name, e) ∈ (w.deleteFiles locs).list dir ↔
        (name, e) ∈ w.list dir ∧ (name :: loc ∈ locs → e.isFile = false) :=
      fun e => Workspace.mem_list_deleteFiles hfree hdir
    cases rest with
    | nil =>
      have hentry : ∀ e, (name, e) ∈ w.list dir ↔ w.tree.entryAt (name :: loc) = some e := by
        intro e
        simp [Workspace.mem_list_iff, hdir]
      simp only [Walked, hlist, hentry, Workspace.isDir_deleteFiles hfree, List.reverse_cons,
        List.reverse_nil, List.nil_append, List.singleton_append]
      constructor
      · rintro ⟨e, ⟨he, hleft⟩, hwalked⟩
        refine ⟨⟨e, he, hwalked⟩, fun e' he' hmem => ?_⟩
        rw [he] at he'
        cases he'
        exact hleft hmem
      · rintro ⟨⟨e, he, hwalked⟩, hleft⟩
        exact ⟨e, ⟨he, hleft e he⟩, hwalked⟩
    | cons next rest =>
      simp only [Walked, hlist]
      by_cases hnext : w.stat (dir.join name.path) = .ok (name :: loc, .directory)
      · rw [ih hnext]
        simp only [List.reverse_cons, List.append_assoc, List.singleton_append, Entry.isFile,
          implies_true, and_true]
        tauto
      · -- The directory cannot be named, so neither walk goes on from it.
        have hstop : (name, .directory) ∈ w.list dir → ∀ r, w.stat (dir.join name.path) ≠ .ok r :=
          fun hmem r hr => hnext (stat_of_mem_list hdir hmem hr)
        constructor
        · rintro ⟨⟨hmem, -⟩, -, hwalked⟩
          obtain ⟨below, hbelow⟩ := stat_of_walked hwalked
          exact absurd ((Workspace.stat_deleteFiles hfree).mp hbelow).1 (hstop hmem _)
        · rintro ⟨⟨hmem, -, hwalked⟩, -⟩
          obtain ⟨below, hbelow⟩ := stat_of_walked hwalked
          exact absurd hbelow (hstop hmem _)

section Reported

variable {w : Workspace} {c : Config} {root : Path} {loc : Location}

/-- The reported files are the unused ones that are files of the tree, and no links. -/
theorem mem_reportedFiles_iff {p : Path} :
    p ∈ reportedFiles w c root loc ↔ p ∈ (scan w c root).unusedFiles ∧
      ∃ contents, w.tree.entryAt (locationFrom loc p) = some (.file contents) := by
  rw [reportedFiles, List.mem_filter, Option.any_eq_true]
  refine and_congr_right fun _ => ?_
  constructor
  · rintro ⟨e, he, hfile⟩
    cases e with
    | file contents => exact ⟨contents, he⟩
    | directory => cases hfile
    | link target => cases hfile
  · rintro ⟨contents, he⟩
    exact ⟨_, he, rfl⟩

/-- A reported file has names behind the root. -/
theorem names_of_reported {p : Path} (h : p ∈ reportedFiles w c root loc) :
    ∃ names, names ≠ [] ∧ p = ofNames names := by
  have hunused := (mem_reportedFiles_iff.mp h).1
  obtain ⟨-, -, names, hwalked, rfl⟩ := mem_found_iff.mp (mem_unusedFiles_iff.mp hunused).1
  exact ⟨names, ne_nil_of_walked hwalked, rfl⟩

/-- Different names lead to different locations. -/
theorem mem_locations_iff {names : List Name} (hne : names ≠ []) :
    names.reverse ++ loc ∈ (reportedFiles w c root loc).map (locationFrom loc) ↔
      ofNames names ∈ reportedFiles w c root loc := by
  rw [List.mem_map]
  constructor
  · rintro ⟨p, hp, heq⟩
    obtain ⟨names', hne', rfl⟩ := names_of_reported hp
    rw [locationFrom_ofNames hne'] at heq
    have hnames := List.reverse_injective (List.append_cancel_right heq)
    rwa [← hnames]
  · intro h
    exact ⟨_, h, locationFrom_ofNames hne loc⟩

/-- A second scan finds the files that are left. -/
theorem found_deleteFiles (hfree : w.tree.LinkFree) (hroot : w.stat root = .ok (loc, .directory)) :
    found (deleteReported w c root loc) c root
      = (found w c root).filter fun p => p ∉ reportedFiles w c root loc := by
  refine eq_of_mem_iff (sorted_found _ c root) ((sorted_found w c root).filter _) fun p => ?_
  rw [List.mem_filter, decide_eq_true_eq, mem_found_iff, mem_found_iff]
  simp only [deleteReported, walked_deleteFiles hfree hroot]
  constructor
  · rintro ⟨hvendor, hinput, names, ⟨hwalked, hleft⟩, rfl⟩
    refine ⟨⟨hvendor, hinput, names, hwalked, rfl⟩, fun hreported => ?_⟩
    obtain ⟨-, contents, hfile⟩ := mem_reportedFiles_iff.mp hreported
    rw [locationFrom_ofNames (ne_nil_of_walked hwalked)] at hfile
    cases hleft _ hfile ((mem_locations_iff (ne_nil_of_walked hwalked)).mpr hreported)
  · -- A location belongs to one path only, so no other file goes with a reported one.
    rintro ⟨⟨hvendor, hinput, names, hwalked, rfl⟩, hkept⟩
    refine ⟨hvendor, hinput, names, ⟨hwalked, fun e _ hmem => ?_⟩, rfl⟩
    exact absurd ((mem_locations_iff (ne_nil_of_walked hwalked)).mp hmem) hkept

/-! ### Reading the files that are left -/

/-- A file that is left is found by its path exactly as before, failures included. -/
theorem stat_kept (hfree : w.tree.LinkFree) (hroot : w.stat root = .ok (loc, .directory))
    {p : Path} (hp : p ∈ found w c root) (hkept : p ∉ reportedFiles w c root loc) :
    (deleteReported w c root loc).stat (root.join p) = w.stat (root.join p) := by
  obtain ⟨-, -, names, hwalked, rfl⟩ := mem_found_iff.mp hp
  have hne := ne_nil_of_walked hwalked
  by_cases hlimit : (root.join (ofNames names)).bytes.length < pathLimit
  · obtain ⟨e, he⟩ := entryAt_of_walked hwalked hroot
    have hstat := stat_join_names hfree hroot hne he hlimit
    rw [hstat, deleteReported, Workspace.stat_deleteFiles hfree]
    exact ⟨hstat, fun hmem => absurd ((mem_locations_iff hne).mp hmem) hkept⟩
  · -- The path is too long whatever the tree is.
    have hlong : pathLimit ≤ (root.join (ofNames names)).bytes.length := Nat.not_lt.mp hlimit
    rw [Workspace.stat_of_pathLimit_le hlong, Workspace.stat_of_pathLimit_le hlong]

/-! ### What imports mean -/

/-- What makes the reported files of a scan safe to delete: the text of a path decides
where it leads, and no import leaves the place from which the root is named. -/
structure SafeToDelete (w : Workspace) (c : Config) (root : Path) (loc : Location) : Prop where
  /-- No entry is a link. -/
  linkFree : w.tree.LinkFree
  /-- The root is a directory. -/
  directory : w.stat root = .ok (loc, .directory)
  /-- The root is written without `..` or from the top. -/
  straight : root.isAbsolute = true ∨ .up ∉ root.components
  /-- No extension leads to another directory. -/
  noSlash : ∀ e ∈ c.extensions, '/' ∉ e.toList
  /-- No base begins with `..`. -/
  stays : ∀ f s, Imports w c root f s →
    (importBase root f.directory (Path.ofChars s)).components.head? ≠ some .up

/-- No variant of an import has led to a reported file: it would have reached the file. -/
theorem pathExists_deleteReported (hsafe : SafeToDelete w c root loc) {f : SourceFile}
    {s : List Char} (himports : Imports w c root f s) {q : Path}
    (hq : q ∈ candidatePaths c.extensions root f.directory (Path.ofChars s)) :
    (deleteReported w c root loc).pathExists q = w.pathExists q := by
  -- Neither the root nor the variant has a `..`, so both lead down by their names.
  have hstraight : IsStraight root.isAbsolute root.normalComponents := by
    refine isStraight_normalComponents (hsafe.straight.imp id fun hno hhead => hno ?_)
    exact mem_normalComponents (List.mem_of_head? hhead)
  have hbase : IsStraight root.isAbsolute
      (baseComponents root f.directory (Path.ofChars s)) := by
    have hup := hsafe.stays f s himports
    rw [importBase, components_normalize] at hup
    rw [← isAbsolute_base himports]
    exact isStraight_normalComponents (Or.inr hup)
  have hcandidate := isStraight_candidate hsafe.noSlash hbase hq
  rw [Bool.eq_iff_iff, Workspace.pathExists_iff, Workspace.pathExists_iff]
  refine exists_congr fun l => exists_congr fun e => ?_
  rw [deleteReported, Workspace.stat_deleteFiles hsafe.linkFree]
  refine and_iff_left_of_imp fun hstat hmem => ?_
  exfalso
  -- If the variant leads to a reported file, the names of the file stand behind the root.
  obtain ⟨p, hp, rfl⟩ := List.mem_map.mp hmem
  obtain ⟨names, hne, rfl⟩ := names_of_reported hp
  have hlocation := Workspace.location_of_stat hsafe.linkFree hstat
  rw [locationFrom_ofNames hne, List.map_append, List.map_reverse,
    Workspace.location_of_stat hsafe.linkFree hsafe.directory] at hlocation
  have hcs := hcandidate.eq_append hstraight hlocation.symm
  have hunused := mem_unusedFiles_iff.mp (mem_reportedFiles_iff.mp hp).1
  refine hunused.2.2 ⟨f, s, himports, q, hq, Workspace.pathExists_iff.mpr ⟨_, e, hstat⟩, ?_⟩
  rw [hcs, components_ofNames, nameComponents]

/-- A file that is left gives the second scan what it gave the first one. -/
theorem findingOf_deleteReported (hsafe : SafeToDelete w c root loc) {p : Path}
    (hp : p ∈ found w c root) (hkept : p ∉ reportedFiles w c root loc) :
    findingOf (deleteReported w c root loc) c root (SourceFile.under root p)
      = findingOf w c root (SourceFile.under root p) := by
  have hmem : SourceFile.under root p ∈ (discover w c root).sourceFiles :=
    under_mem_sourceFiles_iff.mpr hp
  have hread : (deleteReported w c root loc).readText (SourceFile.under root p).path
      = w.readText (SourceFile.under root p).path :=
    Workspace.readText_congr (stat_kept hsafe.linkFree hsafe.directory hp hkept)
  rw [findingOf, findingOf, readReferences, readReferences, hread]
  cases htext : w.readText (SourceFile.under root p).path with
  | error e => simp only [Except.map]
  | ok text =>
    simp only [Except.map]
    rw [resolve_congr]
    intro r hr q hq
    obtain ⟨s, hs, rfl⟩ := mem_references_iff.mp hr
    have himports : Imports w c root (SourceFile.under root p) s := ⟨hmem, text, htext, hs⟩
    exact pathExists_deleteReported hsafe himports hq

/-- The second scan notes about the files that are left what the first one noted. -/
theorem findings_deleteReported (hsafe : SafeToDelete w c root loc) :
    (survey (deleteReported w c root loc) c root).findings
      = (survey w c root).findings.filter
        fun g => g.file.relative ∉ reportedFiles w c root loc := by
  rw [findings_survey, findings_survey, sourceFiles_eq, sourceFiles_eq,
    found_deleteFiles hsafe.linkFree hsafe.directory, List.map_map, List.map_map, List.filter_map]
  refine List.map_congr_left fun p hp => ?_
  obtain ⟨hfound, hkept⟩ := List.mem_filter.mp hp
  exact findingOf_deleteReported hsafe hfound (of_decide_eq_true hkept)

end Reported

/-! ### The two reports -/

/-- Rows of a report that belong to files, for some of the files. -/
theorem flatMap_filter {α β : Type} {keep : α → Bool} {keepRow : β → Bool} {rows : α → List β}
    (h : ∀ x, ∀ y ∈ rows x, keepRow y = keep x) (xs : List α) :
    (xs.filter keep).flatMap rows = (xs.flatMap rows).filter keepRow := by
  induction xs with
  | nil => rfl
  | cons x xs ih =>
    rw [List.flatMap_cons, List.filter_append, ← ih]
    by_cases hx : keep x = true
    · rw [List.filter_cons_of_pos hx, List.flatMap_cons,
        List.filter_eq_self.mpr fun y hy => (h x y hy).trans hx]
    · rw [List.filter_cons_of_neg hx,
        List.filter_eq_nil_iff.mpr fun y hy hkeep => hx ((h x y hy).symm.trans hkeep),
        List.nil_append]

/-- Deleting what a scan reports breaks no import. In a tree without links, under a root
that is written without `..` or from the top, and where no import leaves the place from
which the root is named, a second scan finds the files that are left, and says about
each of them what the first scan said. -/
theorem scan_deleteReported (w : Workspace) (c : Config) (root : Path) (loc : Location)
    (hfree : w.tree.LinkFree) (hroot : w.stat root = .ok (loc, .directory))
    (hform : root.isAbsolute = true ∨ .up ∉ root.components)
    (hslash : ∀ e ∈ c.extensions, '/' ∉ e.toList)
    (hup : ∀ f s, Imports w c root f s →
      (importBase root f.directory (Path.ofChars s)).components.head? ≠ some .up) :
    let deleted := reportedFiles w c root loc
    let before := survey w c root
    let after := survey (deleteReported w c root loc) c root
    after.candidates = before.candidates.filter (fun p => p ∉ deleted) ∧
      (after.report c).unresolved
        = (before.report c).unresolved.filter (fun r => r.file ∉ deleted) ∧
      (after.report c).readErrors
        = (before.report c).readErrors.filter (fun e => e.file ∉ deleted) ∧
      (after.findings.map fun g => (g.file.relative, g.resolution.resolved))
        = (before.findings.map fun g => (g.file.relative, g.resolution.resolved)).filter
          fun row => row.1 ∉ deleted := by
  intro deleted before after
  -- All four lists are made of the findings about the files.
  have hfindings : after.findings = before.findings.filter fun g => g.file.relative ∉ deleted :=
    findings_deleteReported ⟨hfree, hroot, hform, hslash, hup⟩
  refine ⟨?_, ?_, ?_, ?_⟩
  · show (survey (deleteReported w c root loc) c root).candidates
      = (survey w c root).candidates.filter _
    rw [candidates_survey, candidates_survey]
    exact found_deleteFiles hfree hroot
  · show after.findings.flatMap _ = (before.findings.flatMap _).filter _
    rw [hfindings]
    refine flatMap_filter (fun g y hy => ?_) _
    obtain ⟨specifier, -, rfl⟩ := List.mem_map.mp hy
    rfl
  · show after.findings.filterMap _ = (before.findings.filterMap _).filter _
    rw [hfindings, List.filterMap_filter, List.filter_filterMap]
    refine List.filterMap_congr fun g _ => ?_
    cases g.readError? with
    | none => simp
    | some e => by_cases hg : g.file.relative ∈ deleted <;> simp [hg, Option.filter]
  · rw [hfindings, List.filter_map]
    rfl

/-- A page that nothing imports, with a part that only this page imports. -/
def lostPage : Workspace :=
  Workspace.ofFiles [("app/index.ts", "import './used'\nimport './missing'"),
    ("app/used.ts", ""), ("app/lost.ts", "import './used'\nimport './part'\nimport './gone'"),
    ("app/part.ts", "")]

/-- The root of the lost page. -/
def appRoot : Path := Path.ofString "app"

/-- The location of `appRoot`. -/
def appLocation : Location :=
  [⟨Utf8.encode "app".toList, by decide +kernel⟩]

/-- With the lost page, its unresolved reference is gone, and the other one stays. -/
theorem scan_deleteReported_lostPage :
    lostPage.tree.LinkFree ∧ lostPage.stat appRoot = .ok (appLocation, .directory) ∧
    (appRoot.isAbsolute = true ∨ .up ∉ appRoot.components) ∧
    (∀ e ∈ ({} : Config).extensions, '/' ∉ e.toList) ∧
    (∀ f s, Imports lostPage {} appRoot f s →
      (importBase appRoot f.directory (Path.ofChars s)).components.head? ≠ some .up) ∧
    reportedFiles lostPage {} appRoot appLocation = [Path.ofString "lost.ts"] ∧
    (scan lostPage {} appRoot).unresolved
      = [⟨Path.ofString "index.ts", "./missing"⟩, ⟨Path.ofString "lost.ts", "./gone"⟩] ∧
    (scan (deleteReported lostPage {} appRoot appLocation) {} appRoot).unresolved
      = [⟨Path.ofString "index.ts", "./missing"⟩] := by
  have hfree : lostPage.tree.LinkFree := FileTree.linkFree_of_all (by decide +kernel)
  have hroot : lostPage.stat appRoot = .ok (appLocation, .directory) := by decide +kernel
  have hform : appRoot.isAbsolute = true ∨ .up ∉ appRoot.components := by decide +kernel
  have hslash : ∀ e ∈ ({} : Config).extensions, '/' ∉ e.toList := by decide
  have hup : ∀ f s, Imports lostPage {} appRoot f s →
      (importBase appRoot f.directory (Path.ofChars s)).components.head? ≠ some .up := by
    have hall : ∀ x ∈ imports lostPage {} appRoot,
        (importBase appRoot x.1.directory (Path.ofChars x.2)).components.head? ≠ some .up := by
      decide +kernel
    exact fun f s h => hall (f, s) (mem_imports_of_imports h)
  have hreported : reportedFiles lostPage {} appRoot appLocation = [Path.ofString "lost.ts"] := by
    decide +kernel
  have hbefore : (scan lostPage {} appRoot).unresolved
      = [⟨Path.ofString "index.ts", "./missing"⟩, ⟨Path.ofString "lost.ts", "./gone"⟩] := by
    decide +kernel
  refine ⟨hfree, hroot, hform, hslash, hup, hreported, hbefore, ?_⟩
  have hafter := (scan_deleteReported lostPage {} appRoot appLocation hfree hroot hform hslash
    hup).2.1
  refine hafter.trans ?_
  rw [hreported]
  show (scan lostPage {} appRoot).unresolved.filter _ = _
  rw [hbefore]
  decide +kernel

end Unimported
