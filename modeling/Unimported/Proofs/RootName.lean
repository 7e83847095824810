import Unimported.Proofs.CurrentDirectory

/-!
# `Unimported.Proofs.RootName`: what depends on the name of the root

Paths are normalized by their text, so that `../n/x` comes back into a root `n`. From
the root `.` the same import leads out of the root, since `.` tells nothing about the
name of its directory. For a similar reason the root `.` is not a variant of an import
of the root itself. The statements:

* `isUnresolved_iff`: which references have a target in one scan only.
* `reaches_inside_iff`: an import that does not cross the root reaches the same files in
  both scans.
* `scan_inside_iff`: how far the two reports agree.
-/

set_option autoImplicit false

namespace Unimported

open Unimported.Path

section Scans

variable {t : FileTree} {n : Name} {above : Location} {c : Config}

/-! ### References without a target -/

/-- Whether nothing exists that a reference may mean. -/
def IsUnresolved (w : Workspace) (c : Config) (root : Path) (f : SourceFile) (s : List Char) :
    Prop :=
  ∀ q ∈ candidatePaths c.extensions root f.directory (Path.ofChars s), w.pathExists q = false

/-- Whether a reference finds an index file where a name would be needed: a reference to
the root itself in the root, and one to the directory around in that directory. -/
def FindsIndex (t : FileTree) (n : Name) (above : Location) (c : Config) (f : SourceFile)
    (s : List Char) : Prop :=
  (importBase here f.directory (Path.ofChars s) = Path.empty →
    ∃ e ∈ c.extensions, (inside t n above).pathExists (indexFile e) = true) ∧
  (importBase here f.directory (Path.ofChars s) = around →
    ∃ e ∈ c.extensions, (outside t above).pathExists (indexFile e) = true)

instance (t : FileTree) (n : Name) (above : Location) (c : Config) (f : SourceFile)
    (s : List Char) : Decidable (FindsIndex t n above c f s) :=
  inferInstanceAs (Decidable ((_ = _ → ∃ e ∈ c.extensions, _ = _) ∧
    (_ = _ → ∃ e ∈ c.extensions, _ = _)))

/-- The base of an import is `..` exactly if its one component is. -/
theorem importBase_eq_around_iff {root dir specifier : Path} :
    importBase root dir specifier = around ↔ baseComponents root dir specifier = [.up] := by
  rw [importBase_eq]
  constructor
  · intro h
    have hread := components_ofComponents (isNormal_baseComponents root dir specifier)
    rw [h] at hread
    rw [← hread]
    decide +kernel
  · intro h
    rw [h]
    decide +kernel

/-- An empty base has its index files for variants. -/
theorem isUnresolved_of_empty {w : Workspace} {root : Path} {f : SourceFile} {s : List Char}
    (hbase : baseComponents root f.directory (Path.ofChars s) = []) :
    IsUnresolved w c root f s ↔ ¬∃ e ∈ c.extensions, w.pathExists (indexFile e) = true := by
  unfold IsUnresolved
  simp only [mem_candidatePaths_iff, hbase, if_true]
  constructor
  · rintro h ⟨e, he, hexists⟩
    rw [h _ ⟨e, he, rfl⟩] at hexists
    cases hexists
  · rintro h q ⟨e, he, rfl⟩
    by_contra hexists
    exact h ⟨e, he, by simpa using hexists⟩

/-- A base that is not empty is a variant itself. -/
theorem not_isUnresolved_of_base {w : Workspace} {root : Path} {f : SourceFile} {s : List Char}
    (hne : baseComponents root f.directory (Path.ofChars s) ≠ [])
    (hexists : w.pathExists (ofComponents (baseComponents root f.directory (Path.ofChars s)))
      = true) : ¬IsUnresolved w c root f s := by
  intro h
  have hbase := h _ (mem_candidatePaths_iff.mpr (by rw [if_neg hne]; exact Or.inl rfl))
  rw [hexists] at hbase
  cases hbase

/-- A reference has a target in both scans or in none, unless it is one to the root
itself without an index file there, or one to the directory around without an index
file there. -/
theorem isUnresolved_iff (hscans : SameRoot t n above c) {f : SourceFile} {s : List Char}
    (himports : Imports (inside t n above) c here f s) :
    (IsUnresolved (inside t n above) c here f s ↔ IsUnresolved (outside t above) c n.path f s) ↔
      FindsIndex t n above c f s := by
  obtain ⟨text, -, hs⟩ := himports.2
  have hdirectory := isAbsolute_directory himports.1
  have hspecifier := isAbsolute_specifier hs
  rw [FindsIndex, importBase_eq_empty_iff, importBase_eq_around_iff]
  rcases baseComponents_cases n hdirectory hspecifier with
    ⟨names, hhere, hname⟩ | ⟨rest, hroot, hhere, hname⟩
  · by_cases hne : names = []
    · -- The root itself: from outside it has a name, which is there.
      subst hne
      have houtside : ¬IsUnresolved (outside t above) c n.path f s := by
        refine not_isUnresolved_of_base (by simp [hname]) ?_
        rw [hname]
        have hpath : ofComponents (.name n.bytes :: ([] : List (List UInt8)).map .name) = n.path :=
          ofComponents_name n.bytes
        rw [hpath]
        exact Workspace.pathExists_iff.mpr ⟨_, _, stat_name hscans.linkFree hscans.directory⟩
      rw [isUnresolved_of_empty hhere, hhere]
      simp [houtside]
    · have hsame : IsUnresolved (inside t n above) c here f s ↔
          IsUnresolved (outside t above) c n.path f s := by
        unfold IsUnresolved
        rw [candidatePaths_name hne hhere hname, List.forall_mem_map]
        refine forall₂_congr fun q hq => ?_
        rw [pathExists_name hscans himports hne hhere hname hq]
      have hcs : names.map Component.name ≠ [] ∧ names.map Component.name ≠ [.up] := by
        cases names <;> simp_all
      rw [hhere]
      simp [hsame, hcs]
  · by_cases hne : rest = []
    · -- The directory around: from inside it is `..`, which is there.
      subst hne
      have hinside : ¬IsUnresolved (inside t n above) c here f s := by
        refine not_isUnresolved_of_base (by simp [hhere]) ?_
        rw [hhere]
        exact pathExists_around hscans.linkFree hscans.directory
      rw [isUnresolved_of_empty hname, hhere]
      simp [hinside]
    · have hsame : IsUnresolved (inside t n above) c here f s ↔
          IsUnresolved (outside t above) c n.path f s := by
        unfold IsUnresolved
        rw [candidatePaths_around hne hroot hhere hname, List.forall_mem_map]
        refine forall₂_congr fun q hq => ?_
        rw [pathExists_up hscans himports hne hroot hhere hname hq]
      rw [hhere]
      simp [hsame, hne]

/-- A reference is listed by both reports or by none exactly if it finds an index file
where it has to. -/
theorem mem_unresolved_inside_iff (hscans : SameRoot t n above c) {f : SourceFile}
    {s : List Char} (himports : Imports (inside t n above) c here f s) :
    (⟨f.relative, String.ofList s⟩ ∈ (scan (inside t n above) c here).unresolved ↔
      ⟨f.relative, String.ofList s⟩ ∈ (scan (outside t above) c n.path).unresolved) ↔
      FindsIndex t n above c f s := by
  rw [← isUnresolved_iff hscans himports]
  obtain ⟨p, rfl⟩ : ∃ p, f = SourceFile.under here p :=
    ⟨f.relative, eq_under_of_mem himports.1⟩
  have himports' := (imports_inside_iff hscans).mp himports
  have hinside := mem_unresolved_iff_of_imports himports
  have houtside := mem_unresolved_iff_of_imports himports'
  exact iff_congr hinside houtside

/-- The reports list the same references exactly if every reference finds an index file
where it has to. -/
theorem unresolved_eq_iff (hscans : SameRoot t n above c) :
    (scan (inside t n above) c here).unresolved
        = (scan (outside t above) c n.path).unresolved ↔
      ∀ f s, Imports (inside t n above) c here f s → FindsIndex t n above c f s := by
  have hfound := found_inside hscans
  constructor
  · intro heq f s himports
    refine (mem_unresolved_inside_iff hscans himports).mp ?_
    rw [heq]
  · intro hindex
    -- Both lists are made file by file, so it is enough to compare them for one file.
    rw [unresolved_scan, unresolved_scan, ← hfound]
    refine List.flatMap_congr fun p hp => ?_
    have hread : (inside t n above).readText (SourceFile.under here p).path
        = (outside t above).readText (SourceFile.under n.path p).path :=
      readText_inside hscans hp
    have hlists : unresolvedIn (inside t n above) c here (SourceFile.under here p)
        = unresolvedIn (outside t above) c n.path (SourceFile.under n.path p) := by
      rw [unresolvedIn, unresolvedIn, ← hread]
      cases htext : (inside t n above).readText (SourceFile.under here p).path with
      | error e => rfl
      | ok text =>
        refine List.filter_congr fun s hs => ?_
        have himports : Imports (inside t n above) c here (SourceFile.under here p) s :=
          ⟨under_mem_sourceFiles_iff.mpr hp, text, htext, hs⟩
        have hiff := (isUnresolved_iff hscans himports).mpr (hindex _ s himports)
        have hdirectory : (SourceFile.under n.path p).directory
            = (SourceFile.under here p).directory := rfl
        rw [Bool.eq_iff_iff, List.all_eq_true, List.all_eq_true, hdirectory]
        simpa [IsUnresolved] using hiff
    rw [hlists]

/-! ### Files without an import -/

/-- Whether an import crosses the root. One of its variants, seen from the root, leads
out with a `..`. Or it names the root itself, and an extension has a slash, so that the
name of the root with this extension leads into the root. -/
def Crosses (c : Config) (f : SourceFile) (s : List Char) : Prop :=
  (∃ q ∈ candidatePaths c.extensions here f.directory (Path.ofChars s),
    q.normalComponents.head? = some .up) ∨
  (importBase here f.directory (Path.ofChars s) = Path.empty ∧
    ∃ e ∈ c.extensions, '/' ∈ e.toList)

/-- Whether an import that crosses the root reaches a file in a scan. -/
def ReachesAcross (w : Workspace) (c : Config) (root p : Path) : Prop :=
  ∃ f s, Imports w c root f s ∧ Crosses c f s ∧
    ∃ q ∈ candidatePaths c.extensions root f.directory (Path.ofChars s),
      w.pathExists q = true ∧ q.normalComponents = root.normalComponents ++ p.components

/-- The normal form of an index file is its name. -/
theorem normalComponents_indexFile {extension : String} (h : '/' ∉ extension.toList) :
    (indexFile extension).normalComponents = [.name (indexName extension)] := by
  rw [indexFile_eq]
  exact normalComponents_ofComponents (isNormal_append_name isNormal_nil (isPlain_indexName h))

/-- An import of the root itself reaches the index files of the root in both scans. -/
theorem reaches_iff_of_root (hscans : SameRoot t n above c)
    {f : SourceFile} {s : List Char} (himports : Imports (inside t n above) c here f s)
    (hhere : baseComponents here f.directory (Path.ofChars s) = [])
    (hname : baseComponents n.path f.directory (Path.ofChars s) = [.name n.bytes])
    (hslash : ∀ e ∈ c.extensions, '/' ∉ e.toList) {cs : List Component} (hne : cs ≠ []) :
    (∃ q ∈ candidatePaths c.extensions here f.directory (Path.ofChars s),
      (inside t n above).pathExists q = true ∧
        q.normalComponents = here.normalComponents ++ cs) ↔
    ∃ q ∈ candidatePaths c.extensions n.path f.directory (Path.ofChars s),
      (outside t above).pathExists q = true ∧
        q.normalComponents = n.path.normalComponents ++ cs := by
  have hpath : ofComponents [.name n.bytes] = n.path := ofComponents_name n.bytes
  have hnormal : IsNormal ([] ++ [.name n.bytes]) := isNormal_append_name isNormal_nil n.isPlain
  have hindex : ∀ e ∈ c.extensions, n.path.join (indexFile e)
      ∈ candidatePaths c.extensions n.path f.directory (Path.ofChars s) := by
    intro e he
    rw [mem_candidatePaths_iff, hname, if_neg (by simp), hpath]
    exact Or.inr (Or.inr ⟨e, he, rfl⟩)
  have hexists : ∀ e ∈ c.extensions, (outside t above).pathExists (n.path.join (indexFile e))
      = (inside t n above).pathExists (indexFile e) := by
    intro e he
    have hempty : indexFile e ≠ Path.empty := by
      intro h
      have hread := normalComponents_indexFile (hslash e he)
      rw [h] at hread
      cases hread
    exact pathExists_prefix hscans.linkFree n.takesSlash (Workspace.isAbsolute_path n) n.zero_notMem
      (advance_into hscans.directory) (isAbsolute_indexFile e) hempty
      (hscans.short.variants f s himports _ (Or.inr (hindex e he)))
  have hcomponents : ∀ e ∈ c.extensions, (n.path.join (indexFile e)).normalComponents
      = n.path.normalComponents ++ [.name (indexName e)] := by
    intro e he
    rw [normalComponents_join _ _ (isAbsolute_indexFile e), normalComponents_name,
      normalComponents_indexFile (hslash e he)]
    rfl
  constructor
  · rintro ⟨q, hq, hq', hcs⟩
    rw [mem_candidatePaths_iff, if_pos hhere] at hq
    obtain ⟨e, he, rfl⟩ := hq
    refine ⟨_, hindex e he, (hexists e he).trans hq', ?_⟩
    rw [hcomponents e he, ← normalComponents_indexFile (hslash e he), hcs, normalComponents_here]
    rfl
  · rintro ⟨q, hq, hq', hcs⟩
    rw [mem_candidatePaths_iff, hname, if_neg (by simp), hpath] at hq
    rcases hq with rfl | ⟨e, he, rfl⟩ | ⟨e, he, rfl⟩
    · -- The root is not in itself.
      exact absurd (List.self_eq_append_right.mp hcs) hne
    · -- With an extension, the name of the root is the name of something beside it.
      obtain ⟨hnormal', hwrite⟩ := appendExtension hnormal (hslash e he)
      rw [List.nil_append, hpath] at hwrite
      rw [hwrite, normalComponents_ofComponents hnormal', normalComponents_name] at hcs
      simp [hne.symm] at hcs
    · rw [hcomponents e he] at hcs
      refine ⟨indexFile e, ?_, (hexists e he).symm.trans hq', ?_⟩
      · rw [mem_candidatePaths_iff, if_pos hhere]
        exact ⟨e, he, rfl⟩
      · rw [normalComponents_indexFile (hslash e he), normalComponents_here,
          List.append_cancel_left hcs]
        rfl

/-- An import that does not cross the root reaches the same files in both scans. -/
theorem reaches_iff_of_not_crosses (hscans : SameRoot t n above c)
    {f : SourceFile} {s : List Char} (himports : Imports (inside t n above) c here f s)
    (hinner : ¬Crosses c f s) {cs : List Component} (hcs : cs ≠ []) :
    (∃ q ∈ candidatePaths c.extensions here f.directory (Path.ofChars s),
      (inside t n above).pathExists q = true ∧
        q.normalComponents = here.normalComponents ++ cs) ↔
    ∃ q ∈ candidatePaths c.extensions n.path f.directory (Path.ofChars s),
      (outside t above).pathExists q = true ∧
        q.normalComponents = n.path.normalComponents ++ cs := by
  obtain ⟨text, -, hs⟩ := himports.2
  obtain ⟨hstay, hnotRoot⟩ := not_or.mp hinner
  rw [importBase_eq_empty_iff] at hnotRoot
  rcases baseComponents_cases n (isAbsolute_directory himports.1) (isAbsolute_specifier hs) with
    ⟨names, hhere, hname⟩ | ⟨rest, -, hhere, -⟩
  · by_cases hne : names = []
    · subst hne
      have hslash : ∀ e ∈ c.extensions, '/' ∉ e.toList :=
        fun e he hmem => hnotRoot ⟨hhere, e, he, hmem⟩
      exact reaches_iff_of_root hscans himports hhere hname hslash hcs
    · have hbase : baseComponents here f.directory (Path.ofChars s) ≠ [] := by
        simpa [hhere] using hne
      rw [candidatePaths_name hne hhere hname]
      simp only [List.mem_map, exists_exists_and_eq_and]
      refine exists_congr fun q => and_congr_right fun hq => ?_
      rw [pathExists_name hscans himports hne hhere hname hq]
      refine and_congr_right fun _ => ?_
      obtain ⟨hrelative, -⟩ := isAbsolute_candidate hbase (by simp [hhere]) hq
      have hhead : q.normalComponents.head? ≠ some .up := fun h => hstay ⟨q, hq, h⟩
      obtain ⟨ns, hns⟩ := isStraight_normalComponents (Or.inr hhead)
      rw [hrelative] at hns
      rw [normalComponents_join _ _ hrelative, normalComponents_here, normalComponents_name, hns]
      simp [foldl_settle_names]
  · -- The base itself would be a variant that begins with `..`.
    exfalso
    have hbase : baseComponents here f.directory (Path.ofChars s) ≠ [] := by simp [hhere]
    refine hstay ⟨_, mem_candidatePaths_iff.mpr (by rw [if_neg hbase]; exact Or.inl rfl), ?_⟩
    rw [normalComponents_ofComponents (isNormal_baseComponents _ _ _), hhere]
    rfl

/-- What an import reaches across the root it reaches. -/
theorem reaches_of_reachesAcross {w : Workspace} {root p : Path}
    (h : ReachesAcross w c root p) : Reaches w c root p.components := by
  obtain ⟨f, s, himports, -, hreach⟩ := h
  exact ⟨f, s, himports, hreach⟩

/-- What one scan reaches through an import that stays inside the root, the other one
reaches through the same import. -/
theorem reaches_inside_iff (hscans : SameRoot t n above c) {p : Path} (hp : p.components ≠ [])
    (hinside : ¬ReachesAcross (inside t n above) c here p)
    (houtside : ¬ReachesAcross (outside t above) c n.path p) :
    Reaches (inside t n above) c here p.components ↔
      Reaches (outside t above) c n.path p.components := by
  -- The same import does it, since it stays inside the root.
  constructor
  · rintro ⟨f, s, himports, hreach⟩
    obtain ⟨g, rfl⟩ : ∃ g, f = SourceFile.under here g :=
      ⟨f.relative, eq_under_of_mem himports.1⟩
    have hinner : ¬Crosses c (SourceFile.under here g) s :=
      fun hcross => hinside ⟨_, s, himports, hcross, hreach⟩
    exact ⟨SourceFile.under n.path g, s,
      (imports_inside_iff hscans).mp himports,
      (reaches_iff_of_not_crosses hscans himports hinner hp).mp hreach⟩
  · rintro ⟨f, s, himports, hreach⟩
    obtain ⟨g, rfl⟩ : ∃ g, f = SourceFile.under n.path g :=
      ⟨f.relative, eq_under_of_mem himports.1⟩
    have hinner : ¬Crosses c (SourceFile.under here g) s :=
      fun hcross => houtside ⟨_, s, himports, hcross, hreach⟩
    have himports' := (imports_inside_iff hscans).mpr himports
    exact ⟨SourceFile.under here g, s, himports',
      (reaches_iff_of_not_crosses hscans himports' hinner hp).mpr hreach⟩

/-- A file that no import reaches across the root is reported by both scans or by none. -/
theorem mem_unusedFiles_inside_iff (hscans : SameRoot t n above c) {p : Path}
    (hinside : ¬ReachesAcross (inside t n above) c here p)
    (houtside : ¬ReachesAcross (outside t above) c n.path p) :
    p ∈ (scan (inside t n above) c here).unusedFiles ↔
      p ∈ (scan (outside t above) c n.path).unusedFiles := by
  rw [mem_unusedFiles_iff, mem_unusedFiles_iff, found_inside hscans]
  refine and_congr_right fun hp => and_congr_right fun _ => not_congr ?_
  exact reaches_inside_iff hscans (components_ne_nil_of_found hp) hinside
    houtside

/-- The reports name the same files exactly if no import that crosses the root reaches,
in one of the scans, a file that the other one reports. -/
theorem unusedFiles_eq_iff (hscans : SameRoot t n above c) :
    (scan (inside t n above) c here).unusedFiles
        = (scan (outside t above) c n.path).unusedFiles ↔
      (∀ p ∈ (scan (inside t n above) c here).unusedFiles,
        ¬ReachesAcross (outside t above) c n.path p) ∧
      ∀ p ∈ (scan (outside t above) c n.path).unusedFiles,
        ¬ReachesAcross (inside t n above) c here p := by
  -- No file is reported by a scan in which an import reaches it.
  have hnot : ∀ (w : Workspace) (root p : Path), p ∈ (scan w c root).unusedFiles →
      ¬ReachesAcross w c root p := by
    intro w root p hp hacross
    exact (mem_unusedFiles_iff.mp hp).2.2 (reaches_of_reachesAcross hacross)
  constructor
  · intro heq
    constructor
    · intro p hp
      rw [heq] at hp
      exact hnot _ _ p hp
    · intro p hp
      rw [← heq] at hp
      exact hnot _ _ p hp
  · rintro ⟨hinside, houtside⟩
    refine eq_of_mem_iff (sorted_unusedFiles _ _ _) (sorted_unusedFiles _ _ _) fun p => ⟨?_, ?_⟩
    · intro hp
      exact (mem_unusedFiles_inside_iff hscans (hnot _ _ p hp)
        (hinside p hp)).mp hp
    · intro hp
      exact (mem_unusedFiles_inside_iff hscans (houtside p hp)
        (hnot _ _ p hp)).mpr hp

end Scans

/-- One directory, scanned as `.` from inside and by its name from the directory around.
In a tree without links, with no vendor directory, and as long as no path is too long,
both scans find the same files and fail to read the same ones.

1. A reference is listed as unresolved by both or by none exactly if it finds an index
   file where it has to: in the root if it names the root itself, and in the directory
   around if it names that one. From inside, the root has no name that a variant could
   have, and from outside, the directory around has none.
2. A file is reported by both or by none unless an import reaches it across the root.
   Such an import is `../n/x`: it comes back into `n`, but not into `.`. The reports are
   the same exactly if no such import reaches, in one scan, what the other one reports. -/
theorem scan_inside_iff (t : FileTree) (n : Name) (above : Location) (c : Config)
    (hfree : t.LinkFree) (hdir : t.entryAt (n :: above) = some .directory)
    (hvendor : c.vendorDir = "") (hinput : n.path ≠ standardInput)
    (hshort : ShortPaths t n above c) :
    let ours := scan (inside t n above) c here
    let theirs := scan (outside t above) c n.path
    (ours.scannedFiles = theirs.scannedFiles ∧ ours.readErrors = theirs.readErrors) ∧
    ((∀ f s, Imports (inside t n above) c here f s →
        ((⟨f.relative, String.ofList s⟩ ∈ ours.unresolved ↔
          ⟨f.relative, String.ofList s⟩ ∈ theirs.unresolved) ↔ FindsIndex t n above c f s)) ∧
      (ours.unresolved = theirs.unresolved ↔
        ∀ f s, Imports (inside t n above) c here f s → FindsIndex t n above c f s)) ∧
    (∀ p, ¬ReachesAcross (inside t n above) c here p →
        ¬ReachesAcross (outside t above) c n.path p →
        (p ∈ ours.unusedFiles ↔ p ∈ theirs.unusedFiles)) ∧
      (ours.unusedFiles = theirs.unusedFiles ↔
        (∀ p ∈ ours.unusedFiles, ¬ReachesAcross (outside t above) c n.path p) ∧
        ∀ p ∈ theirs.unusedFiles, ¬ReachesAcross (inside t n above) c here p) := by
  intro ours theirs
  have hscans : SameRoot t n above c := ⟨hfree, hdir, hvendor, hinput, hshort⟩
  have hfound := found_inside hscans
  refine ⟨⟨?_, ?_⟩, ⟨?_, ?_⟩, ?_, ?_⟩
  · show (survey (inside t n above) c here).candidates.length
      = (survey (outside t above) c n.path).candidates.length
    rw [candidates_survey, candidates_survey, hfound]
  · show (scan (inside t n above) c here).readErrors = (scan (outside t above) c n.path).readErrors
    rw [readErrors_scan, readErrors_scan, ← hfound]
    refine List.filterMap_congr fun p hp => ?_
    rw [readText_inside hscans hp]
  · intro f s himports
    exact mem_unresolved_inside_iff hscans himports
  · exact unresolved_eq_iff hscans
  · intro p hinside houtside
    exact mem_unusedFiles_inside_iff hscans hinside houtside
  · exact unusedFiles_eq_iff hscans

/-- A directory `n` whose file `b.ts` is imported by a path over the name of the
directory. The directory has an index file, and the one around has none. -/
def namedTree : FileTree :=
  (Workspace.ofFiles [("n/a.ts", "import '../n/b'"), ("n/b.ts", "import '.'"),
    ("n/index.ts", "import '..'")]).tree

/-- The name of the directory in `namedTree`. -/
def namedRoot : Name := ⟨Utf8.encode "n".toList, by decide +kernel⟩

/-- The default configuration, without a vendor directory. -/
def noVendor : Config := { vendorDir := "" }

/-- The report does depend on the name of the root. From inside, the import over this
name reaches nothing. From outside, the import of the directory around has no target. -/
theorem scan_inside_ne_scan_outside :
    (namedTree.LinkFree ∧ namedTree.entryAt [namedRoot] = some .directory ∧
      noVendor.vendorDir = "" ∧ namedRoot.path ≠ standardInput) ∧
    (scan (inside namedTree namedRoot []) noVendor here).unusedFiles
      ≠ (scan (outside namedTree []) noVendor namedRoot.path).unusedFiles ∧
    (scan (inside namedTree namedRoot []) noVendor here).unresolved
      ≠ (scan (outside namedTree []) noVendor namedRoot.path).unresolved := by
  refine ⟨⟨FileTree.linkFree_of_all ?_, ?_, rfl, ?_⟩, ?_, ?_⟩ <;> decide +kernel

/-- A name as long as names get. -/
def longName : Name := ⟨List.replicate longestName 110, by decide +kernel⟩

/-- A file `a.ts` below sixteen directories with such names. -/
def deepTree : FileTree :=
  let directories := (List.range 16).map fun depth => List.replicate (depth + 1) longName
  let file : Name := ⟨Utf8.encode "a.ts".toList, by decide +kernel⟩
  (directories.foldl (fun t loc => t.place loc .directory) FileTree.empty).place
    (file :: List.replicate 16 longName) (.file [])

/-- The bound on the paths cannot be left out: this file imports nothing, but its path
behind the name of the root is too long to be read. -/
theorem readErrors_deepTree_ne :
    deepTree.LinkFree ∧ deepTree.entryAt [longName] = some .directory ∧
      (scan (inside deepTree longName []) noVendor here).readErrors
        ≠ (scan (outside deepTree []) noVendor longName.path).readErrors := by
  refine ⟨FileTree.linkFree_of_all ?_, ?_, ?_⟩ <;> decide +kernel

/-- No path in `namedTree` is too long. -/
theorem shortPaths_namedTree : ShortPaths namedTree namedRoot [] noVendor := by
  constructor
  · have hinside : ∀ p ∈ found (inside namedTree namedRoot []) noVendor here,
        (namedRoot.path.join p).bytes.length < pathLimit := by decide +kernel
    have houtside : ∀ p ∈ found (outside namedTree []) noVendor namedRoot.path,
        (namedRoot.path.join p).bytes.length < pathLimit := by decide +kernel
    exact fun p hp => hp.elim (hinside p) (houtside p)
  · have hall : ∀ x ∈ imports (inside namedTree namedRoot []) noVendor here,
        ∀ q ∈ candidatePaths noVendor.extensions here x.1.directory (Path.ofChars x.2) ++
          candidatePaths noVendor.extensions namedRoot.path x.1.directory (Path.ofChars x.2),
        q.bytes.length < pathLimit := by decide +kernel
    intro f s himports q hq
    exact hall (f, s) (mem_imports_of_imports himports) q (List.mem_append.mpr hq)

/-- In `namedTree` both scans list the reference `.` or none does, since there is an index
file in the root. Some other reference finds none where it has to, and some import
reaches a file across the root. -/
theorem scan_inside_iff_namedTree :
    (namedTree.LinkFree ∧ namedTree.entryAt [namedRoot] = some .directory ∧
      noVendor.vendorDir = "" ∧ namedRoot.path ≠ standardInput ∧
      ShortPaths namedTree namedRoot [] noVendor) ∧
    let ours := scan (inside namedTree namedRoot []) noVendor here
    let theirs := scan (outside namedTree []) noVendor namedRoot.path
    ours.readErrors = theirs.readErrors ∧
      (⟨Path.ofString "b.ts", "."⟩ ∈ ours.unresolved ↔
        ⟨Path.ofString "b.ts", "."⟩ ∈ theirs.unresolved) ∧
      (¬∀ f s, Imports (inside namedTree namedRoot []) noVendor here f s →
        FindsIndex namedTree namedRoot [] noVendor f s) ∧
      ¬((∀ p ∈ ours.unusedFiles, ¬ReachesAcross (outside namedTree []) noVendor namedRoot.path p) ∧
        ∀ p ∈ theirs.unusedFiles,
          ¬ReachesAcross (inside namedTree namedRoot []) noVendor here p) := by
  have hfree : namedTree.LinkFree := FileTree.linkFree_of_all (by decide +kernel)
  have hdir : namedTree.entryAt [namedRoot] = some .directory := by decide +kernel
  have hinput : namedRoot.path ≠ standardInput := by decide +kernel
  refine ⟨⟨hfree, hdir, rfl, hinput, shortPaths_namedTree⟩, ?_⟩
  intro ours theirs
  obtain ⟨⟨-, herrors⟩, ⟨hrow, hunresolved⟩, -, hunused⟩ := scan_inside_iff namedTree namedRoot []
    noVendor hfree hdir rfl hinput shortPaths_namedTree
  refine ⟨herrors, ?_, ?_, ?_⟩
  · have himports : Imports (inside namedTree namedRoot []) noVendor here
        (SourceFile.under here (Path.ofString "b.ts")) ".".toList := by
      refine ⟨?_, "import '.'".toList, ?_, ?_⟩ <;> decide +kernel
    exact (hrow _ _ himports).mpr (by decide +kernel)
  · intro hindex
    have hne : ours.unresolved ≠ theirs.unresolved := by decide +kernel
    exact hne (hunresolved.mpr hindex)
  · intro hacross
    have hne : ours.unusedFiles ≠ theirs.unusedFiles := by decide +kernel
    exact hne (hunused.mpr hacross)

end Unimported
