import Unimported.FileTree.Edit
import Unimported.Proofs.Discovery
import Unimported.Proofs.Reachability
import Unimported.Proofs.Specifier
import Unimported.Scan

/-!
# `Unimported.Proofs.Scan`: the report of a scan, file by file

A report is put together from lists, sets and a table. `Imports` and `Reaches` say the
same without them. The statements:

* `candidates_survey`: the candidates of a survey are the files that were found.
* `mem_resolved_finding_iff`: the targets of one file.
* `mem_unusedFiles_iff`: a file is reported exactly if it was found, is no entry point
  and no import reaches it; `sorted_unusedFiles` has the order of the report.
* `scannedFiles_scan`, `readErrors_scan`, `unresolved_scan`: the number of files, and the
  other rows of a report in their order.
* `mem_readErrors_iff`: a failure is listed exactly if a file could not be read.
* `mem_unresolved_iff`: a reference is listed exactly if nothing exists that it may mean.
-/

set_option autoImplicit false

namespace Unimported

open Unimported.Path

attribute [ext] ScanReport

/-- Whether a source file can be read and has this specifier among its imports. -/
def Imports (w : Workspace) (c : Config) (root : Path) (f : SourceFile) (s : List Char) : Prop :=
  f ∈ (discover w c root).sourceFiles ∧
    ∃ text, w.readText f.path = .ok text ∧ s ∈ Specifier.specifiers text

/-- Every import of a scan with the file that has it. -/
def imports (w : Workspace) (c : Config) (root : Path) : List (SourceFile × List Char) :=
  (discover w c root).sourceFiles.flatMap fun f =>
    match w.readText f.path with
    | .ok text => (Specifier.specifiers text).map fun s => (f, s)
    | .error _ => []

/-- Every import of a scan is in its list of imports. -/
theorem mem_imports_of_imports {w : Workspace} {c : Config} {root : Path} {f : SourceFile}
    {s : List Char} (h : Imports w c root f s) : (f, s) ∈ imports w c root := by
  obtain ⟨hf, text, hread, hs⟩ := h
  refine List.mem_flatMap.mpr ⟨f, hf, ?_⟩
  rw [hread]
  exact List.mem_map_of_mem hs

/-- The directory of a source file is seen from the root. -/
theorem isAbsolute_directory {w : Workspace} {c : Config} {root : Path} {f : SourceFile}
    (h : f ∈ (discover w c root).sourceFiles) : f.directory.isAbsolute = false := by
  have hfound : f.relative ∈ found w c root := List.mem_map_of_mem h
  obtain ⟨-, -, names, -, hnames⟩ := mem_found_iff.mp hfound
  have hrelative : f.relative.isAbsolute = false := by
    rw [hnames]
    exact isAbsolute_ofNames names
  unfold SourceFile.directory
  cases hparent : f.relative.parent? with
  | none => rfl
  | some dir => exact isAbsolute_parent? hrelative hparent

/-- A specifier begins with a dot, so it is seen from the directory of its file. -/
theorem isAbsolute_specifier {source s : List Char} (h : s ∈ Specifier.specifiers source) :
    (Path.ofChars s).isAbsolute = false := by
  have hhead := Specifier.head?_of_mem_specifiers h
  cases s with
  | nil => cases hhead
  | cons c s =>
    obtain rfl : c = '.' := by simpa using hhead
    rfl

/-- What an import names starts at the root exactly if the scan does. -/
theorem isAbsolute_base {w : Workspace} {c : Config} {root : Path} {f : SourceFile}
    {s : List Char} (h : Imports w c root f s) :
    ((root.join f.directory).join (Path.ofChars s)).isAbsolute = root.isAbsolute := by
  obtain ⟨hf, text, -, hs⟩ := h
  rw [isAbsolute_join _ _ (isAbsolute_specifier hs), isAbsolute_join _ _ (isAbsolute_directory hf)]

/-- Whether some import may mean a path that exists and that has these components
behind the root. -/
def Reaches (w : Workspace) (c : Config) (root : Path) (cs : List Component) : Prop :=
  ∃ f s, Imports w c root f s ∧
    ∃ q ∈ candidatePaths c.extensions root f.directory (Path.ofChars s),
      w.pathExists q = true ∧ q.normalComponents = root.normalComponents ++ cs

/-- What a survey notes about one source file. -/
def findingOf (w : Workspace) (c : Config) (root : Path) (f : SourceFile) : Finding :=
  ⟨f, (readReferences w c.extensions root f).map (resolve w root)⟩

/-- A scan has a finding for each source file. -/
theorem findings_survey (w : Workspace) (c : Config) (root : Path) :
    (survey w c root).findings = (discover w c root).sourceFiles.map (findingOf w c root) := rfl

/-- The files that may be unused are the files that are found. -/
theorem candidates_survey (w : Workspace) (c : Config) (root : Path) :
    (survey w c root).candidates = found w c root :=
  PathSet.toList_ofList_of_sorted (sorted_found w c root)

/-- The references of a file that can be read. -/
theorem mem_references_iff {extensions : List String} {root dir : Path} {text : List Char}
    {r : Reference} :
    r ∈ references extensions root dir text ↔ ∃ s ∈ Specifier.specifiers text,
      r = ⟨String.ofList s, candidatePaths extensions root dir (Path.ofChars s)⟩ := by
  simp only [references, List.mem_map, eq_comm]

/-- The targets of one file are what its imports reach. -/
theorem mem_resolved_finding_iff {w : Workspace} {c : Config} {root : Path} {f : SourceFile}
    {cs : List Component} :
    (∃ p ∈ (findingOf w c root f).resolution.resolved, p.components = cs) ↔
      ∃ text, w.readText f.path = .ok text ∧ ∃ s ∈ Specifier.specifiers text,
        ∃ q ∈ candidatePaths c.extensions root f.directory (Path.ofChars s),
          w.pathExists q = true ∧ q.normalComponents = root.normalComponents ++ cs := by
  -- A file that cannot be read has no targets.
  unfold findingOf readReferences
  cases hread : w.readText f.path with
  | error e => simp [Finding.resolution, Except.map]
  | ok text =>
    simp only [Finding.resolution, Except.map, mem_resolved_iff, mem_references_iff,
      Except.ok.injEq, exists_eq_left']
    constructor
    · rintro ⟨r, ⟨s, hs, rfl⟩, q, hq, hexists, hcs⟩
      exact ⟨s, hs, q, hq, hexists, hcs⟩
    · rintro ⟨s, hs, q, hq, hexists, hcs⟩
      exact ⟨_, ⟨s, hs, rfl⟩, q, hq, hexists, hcs⟩

/-- No two source files are at the same place. -/
theorem pairwise_sourceFiles (w : Workspace) (c : Config) (root : Path) :
    (discover w c root).sourceFiles.Pairwise
      fun f g => f.relative.components ≠ g.relative.components := by
  refine (List.pairwise_map.mp (sorted_found w c root)).imp ?_
  intro f g hlt heq
  rw [compare_eq_eq_iff.mpr heq] at hlt
  cases hlt

/-- A path is reachable exactly if an import reaches its components. -/
theorem contains_targets_iff {w : Workspace} {c : Config} {root p : Path} :
    (reachable (survey w c root).targets).contains p = true ↔
      Reaches w c root p.components := by
  rw [Survey.targets, findings_survey, List.map_map, contains_reachable]
  · constructor
    · rintro ⟨r, hr, hq⟩
      obtain ⟨f, hf, rfl⟩ := List.mem_map.mp hr
      obtain ⟨text, hread, s, hs, hreach⟩ := mem_resolved_finding_iff.mp hq
      exact ⟨f, s, ⟨hf, text, hread, hs⟩, hreach⟩
    · rintro ⟨f, s, ⟨hf, text, hread, hs⟩, hreach⟩
      exact ⟨_, List.mem_map.mpr ⟨f, hf, rfl⟩,
        mem_resolved_finding_iff.mpr ⟨text, hread, s, hs, hreach⟩⟩
  · exact List.pairwise_map.mpr (pairwise_sourceFiles w c root)

/-- A file is reported exactly if it was found, is no entry point, and no import
reaches it. -/
theorem mem_unusedFiles_iff {w : Workspace} {c : Config} {root p : Path} :
    p ∈ (scan w c root).unusedFiles ↔ p ∈ found w c root ∧ c.isEntryPoint p = false ∧
      ¬Reaches w c root p.components := by
  show p ∈ unused c (survey w c root).candidates (survey w c root).targets ↔ _
  rw [mem_unused_iff, candidates_survey, ← contains_targets_iff, Bool.not_eq_true]

/-- The unused files are listed in the order in which files are found. -/
theorem unusedFiles_sublist (w : Workspace) (c : Config) (root : Path) :
    (scan w c root).unusedFiles.Sublist (found w c root) := by
  rw [← candidates_survey]
  exact unused_sublist c _ _

/-- The unused files are listed in the order of paths, each once. -/
theorem sorted_unusedFiles (w : Workspace) (c : Config) (root : Path) :
    (scan w c root).unusedFiles.Pairwise fun p q => p.compare q = .lt :=
  (sorted_found w c root).sublist (unusedFiles_sublist w c root)

/-! ### The rows of a report -/

/-- The report counts the files that are found. -/
theorem scannedFiles_scan (w : Workspace) (c : Config) (root : Path) :
    (scan w c root).scannedFiles = (found w c root).length := by
  show (survey w c root).candidates.length = _
  rw [candidates_survey]

/-- The report lists every file that could not be read, with the reason. -/
theorem readErrors_scan (w : Workspace) (c : Config) (root : Path) :
    (scan w c root).readErrors = (found w c root).filterMap fun p =>
      match w.readText (root.join p) with
      | .ok _ => none
      | .error e => some ⟨p, e.message⟩ := by
  show (survey w c root).findings.filterMap _ = _
  -- There is one finding for each file that was found, in the same order.
  rw [findings_survey, sourceFiles_eq, List.map_map, List.filterMap_map]
  refine List.filterMap_congr fun p _ => ?_
  simp only [Function.comp_apply, findingOf, readReferences, SourceFile.under, Finding.readError?]
  cases w.readText (root.join p) <;> rfl

/-- Which failures to read a report lists. -/
theorem mem_readErrors_iff {w : Workspace} {c : Config} {root : Path} {r : ReadFailure} :
    r ∈ (scan w c root).readErrors ↔ ∃ f ∈ (discover w c root).sourceFiles, ∃ e,
      w.readText f.path = .error e ∧ r = ⟨f.relative, e.message⟩ := by
  rw [readErrors_scan, List.mem_filterMap]
  constructor
  · rintro ⟨p, hp, hr⟩
    split at hr
    · cases hr
    · rename_i e hread
      exact ⟨SourceFile.under root p, under_mem_sourceFiles_iff.mpr hp, e, hread,
        (Option.some.inj hr).symm⟩
  · rintro ⟨f, hf, e, hread, rfl⟩
    have hunder := eq_under_of_mem hf
    refine ⟨f.relative, List.mem_map_of_mem hf, ?_⟩
    rw [hunder] at hread
    simp only [SourceFile.under] at hread
    simp only [hread]

/-- The specifiers of a file for which nothing exists that they may mean. -/
def unresolvedIn (w : Workspace) (c : Config) (root : Path) (f : SourceFile) : List (List Char) :=
  match w.readText f.path with
  | .ok text => (Specifier.specifiers text).filter fun s =>
      (candidatePaths c.extensions root f.directory (Path.ofChars s)).all fun q => !w.pathExists q
  | .error _ => []

/-- The report lists, file by file, the specifiers that lack a target. -/
theorem unresolved_scan (w : Workspace) (c : Config) (root : Path) :
    (scan w c root).unresolved = (found w c root).flatMap fun p =>
      (unresolvedIn w c root (SourceFile.under root p)).map fun s => ⟨p, String.ofList s⟩ := by
  show (survey w c root).findings.flatMap _ = _
  rw [findings_survey, sourceFiles_eq, List.map_map, List.flatMap_map]
  refine List.flatMap_congr fun p _ => ?_
  simp only [Function.comp_apply, findingOf, readReferences, unresolvedIn, Finding.resolution]
  cases w.readText (SourceFile.under root p).path with
  | error e => rfl
  | ok text =>
    -- A reference is unresolved if none of its candidates is left.
    simp only [Except.map, resolve, references, List.filter_map, List.map_map]
    have hexisting : ∀ (s : String) (qs : List Path),
        ((⟨s, qs⟩ : Reference).existing w).isEmpty = qs.all fun q => !w.pathExists q := by
      intro s qs
      rw [Bool.eq_iff_iff]
      simp [Reference.existing]
    simp only [Function.comp_def, hexisting]
    rfl

/-- Which references a report lists. -/
theorem mem_unresolved_iff {w : Workspace} {c : Config} {root : Path} {r : UnresolvedReference} :
    r ∈ (scan w c root).unresolved ↔ ∃ f s, Imports w c root f s ∧
      r = ⟨f.relative, String.ofList s⟩ ∧
      ∀ q ∈ candidatePaths c.extensions root f.directory (Path.ofChars s),
        w.pathExists q = false := by
  rw [unresolved_scan, List.mem_flatMap]
  constructor
  · rintro ⟨p, hp, hr⟩
    obtain ⟨s, hs, rfl⟩ := List.mem_map.mp hr
    unfold unresolvedIn at hs
    split at hs
    · rename_i text hread
      obtain ⟨hs, hnone⟩ := List.mem_filter.mp hs
      exact ⟨SourceFile.under root p, s, ⟨under_mem_sourceFiles_iff.mpr hp, text, hread, hs⟩, rfl,
        by simpa using hnone⟩
    · cases hs
  · rintro ⟨f, s, ⟨hf, text, hread, hs⟩, rfl, hnone⟩
    refine ⟨f.relative, List.mem_map_of_mem hf, List.mem_map.mpr ⟨s, ?_, rfl⟩⟩
    rw [← eq_under_of_mem hf, unresolvedIn, hread]
    exact List.mem_filter.mpr ⟨hs, by simpa using hnone⟩

/-- A row belongs to one import only. -/
theorem mem_unresolved_iff_of_imports {w : Workspace} {c : Config} {root : Path} {f : SourceFile}
    {s : List Char} (h : Imports w c root f s) :
    ⟨f.relative, String.ofList s⟩ ∈ (scan w c root).unresolved ↔
      ∀ q ∈ candidatePaths c.extensions root f.directory (Path.ofChars s),
        w.pathExists q = false := by
  rw [mem_unresolved_iff]
  constructor
  · rintro ⟨g, u, himports, hrow, hnone⟩
    -- A row names the file by its path from the root, which determines the file.
    obtain ⟨hrelative, hspecifier⟩ := UnresolvedReference.mk.inj hrow
    have hsource : s = u := String.ofList_injective hspecifier
    have hfile : f = g := by
      rw [eq_under_of_mem h.1, eq_under_of_mem himports.1, hrelative]
    rw [hsource, hfile]
    exact hnone
  · intro hnone
    exact ⟨f, s, h, rfl, hnone⟩

/-! ### Small workspaces -/

/-- The workspace with these files, made one after the other in an empty tree. The root
of the tree is the current directory. -/
def Workspace.ofFiles (files : List (String × String)) : Workspace :=
  files.foldl (fun w (path, text) =>
    match w.putFile (Path.ofString path) (Utf8.encode text.toList) with
    | .ok made => made
    | .error left => left) ⟨FileTree.empty, []⟩

/-- The location of a path from the root of a tree. -/
def Location.ofString (path : String) : Location :=
  ((Path.ofString path).segments.filterMap Name.ofBytes?).reverse

end Unimported
