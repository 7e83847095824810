import Mathlib.Data.List.Pairwise
import Unimported.Proofs.Scan

/-!
# `Unimported.Proofs.Accounting`: every file and every reference of a report

A scan looks at each source file once, in the order of the paths. A file that cannot be
read gives one failure and nothing else, and any other file gives its unresolved
references in the order in which its text has them. The statements:

* `sorted_readErrors`: failures stand in the order of their files, one for each.
* `nodup_unresolved`, `pairwise_unresolved`: no reference is listed twice, and those of one
  file stand together.
* `unresolved_of_file`: the rows of one file.
* `scan_accounts`: the whole report.
-/

set_option autoImplicit false

namespace Unimported

variable (w : Workspace) (c : Config) (root : Path)

/-- No path stands before itself, so a strictly sorted list has no path twice. -/
theorem compare_self_ne (p : Path) : p.compare p ≠ .lt := by
  rw [Path.compare_eq_eq_iff.mpr rfl]
  decide

/-- No file is found twice. -/
theorem nodup_found : (found w c root).Nodup := by
  refine (sorted_found w c root).imp fun hlt heq => ?_
  rw [heq] at hlt
  exact compare_self_ne _ hlt

/-! ### Failures -/

/-- The files that could not be read are listed in the order of paths, each once. -/
theorem sorted_readErrors :
    (scan w c root).readErrors.Pairwise fun r r' => r.file.compare r'.file = .lt := by
  rw [readErrors_scan, List.pairwise_filterMap]
  refine (sorted_found w c root).imp fun hlt r hr r' hr' => ?_
  -- A row has the file for which it was made.
  split at hr <;> cases hr
  split at hr' <;> cases hr'
  exact hlt

/-! ### Unresolved references -/

/-- The rows of a report that belong to one of the files. -/
def unresolvedRows (p : Path) : List UnresolvedReference :=
  (unresolvedIn w c root (SourceFile.under root p)).map fun s => ⟨p, String.ofList s⟩

/-- The references without a target are listed file by file, in the order of the files. -/
theorem unresolved_eq_flatMap :
    (scan w c root).unresolved = (found w c root).flatMap (unresolvedRows w c root) :=
  unresolved_scan w c root

variable {w c root}

/-- The rows for a file name that file. -/
theorem file_of_mem_unresolvedRows {p : Path} {r : UnresolvedReference}
    (h : r ∈ unresolvedRows w c root p) : r.file = p := by
  obtain ⟨s, -, rfl⟩ := List.mem_map.mp h
  rfl

/-- A text has each of its specifiers once. -/
theorem nodup_unresolvedRows (p : Path) : (unresolvedRows w c root p).Nodup := by
  have hspecifiers : (unresolvedIn w c root (SourceFile.under root p)).Nodup := by
    unfold unresolvedIn
    split
    · exact (Specifier.nodup_firsts _ _).filter _
    · exact List.nodup_nil
  refine hspecifiers.map fun s s' heq => ?_
  exact String.ofList_injective (UnresolvedReference.mk.inj heq).2

variable (w c root)

/-- No reference is listed twice: rows of one file differ in the specifier, and rows of two files
in the file. -/
theorem nodup_unresolved : (scan w c root).unresolved.Nodup := by
  rw [unresolved_eq_flatMap, List.nodup_flatMap]
  refine ⟨fun p _ => nodup_unresolvedRows p, (nodup_found w c root).imp fun hne r hr hr' => hne ?_⟩
  rw [← file_of_mem_unresolvedRows hr, ← file_of_mem_unresolvedRows hr']

/-- The references of one file stand together, and the files follow in their order. -/
theorem pairwise_unresolved :
    (scan w c root).unresolved.Pairwise fun r r' =>
      r.file = r'.file ∨ r.file.compare r'.file = .lt := by
  rw [unresolved_eq_flatMap, List.pairwise_flatMap]
  constructor
  · intro p _
    refine List.pairwise_of_forall_mem_list fun r hr r' hr' => Or.inl ?_
    rw [file_of_mem_unresolvedRows hr, file_of_mem_unresolvedRows hr']
  · refine (sorted_found w c root).imp fun hlt r hr r' hr' => Or.inr ?_
    rwa [file_of_mem_unresolvedRows hr, file_of_mem_unresolvedRows hr']

variable {w c root}

/-- The rows of a file are what this file has given. -/
theorem unresolved_filter_file {p : Path} (hp : p ∈ found w c root) :
    (scan w c root).unresolved.filter (fun r => r.file = p) = unresolvedRows w c root p := by
  have hrows : ∀ q ∈ found w c root, (unresolvedRows w c root q).filter (fun r => r.file = p)
      = if q = p then unresolvedRows w c root p else [] := by
    intro q _
    by_cases hq : q = p
    · rw [if_pos hq, ← hq, List.filter_eq_self]
      exact fun r hr => decide_eq_true (file_of_mem_unresolvedRows hr)
    · rw [if_neg hq, List.filter_eq_nil_iff]
      intro r hr
      rwa [decide_eq_true_eq, file_of_mem_unresolvedRows hr]
  rw [unresolved_eq_flatMap, List.filter_flatMap, List.flatMap_congr hrows]
  -- The file is found once, so only one of the parts is left.
  obtain ⟨before, after, hfound⟩ := List.append_of_mem hp
  have hnodup := nodup_found w c root
  rw [hfound, List.nodup_middle, List.nodup_cons, List.mem_append, not_or] at hnodup
  have hother : ∀ ps : List Path, p ∉ ps →
      ps.flatMap (fun q => if q = p then unresolvedRows w c root p else []) = [] := by
    intro ps hps
    refine List.flatMap_eq_nil_iff.mpr fun q hq => if_neg ?_
    rintro rfl
    exact hps hq
  rw [hfound, List.flatMap_append, List.flatMap_cons, hother before hnodup.1.1,
    hother after hnodup.1.2, if_pos rfl, List.nil_append, List.append_nil]

/-- The references of a file are listed in the order in which its text has them. -/
theorem unresolved_of_file {f : SourceFile} (hf : f ∈ (discover w c root).sourceFiles)
    {text : List Char} (hread : w.readText f.path = .ok text) :
    ((scan w c root).unresolved.filter fun r => r.file = f.relative).map (·.specifier)
      = ((Specifier.specifiers text).filter fun s =>
          (candidatePaths c.extensions root f.directory (Path.ofChars s)).all
            fun q => !w.pathExists q).map String.ofList := by
  rw [unresolved_filter_file (List.mem_map_of_mem hf), unresolvedRows, ← eq_under_of_mem hf,
    List.map_map, unresolvedIn, hread]
  rfl

/-- A file that cannot be read has no references. -/
theorem file_ne_of_readError {r : ReadFailure} {u : UnresolvedReference}
    (hr : r ∈ (scan w c root).readErrors) (hu : u ∈ (scan w c root).unresolved) :
    r.file ≠ u.file := by
  obtain ⟨f, hf, e, hread, rfl⟩ := mem_readErrors_iff.mp hr
  obtain ⟨g, s, ⟨hg, text, hread', -⟩, rfl, -⟩ := mem_unresolved_iff.mp hu
  intro heq
  have hsame : f = g := by
    rw [eq_under_of_mem hf, eq_under_of_mem hg]
    exact congrArg _ heq
  rw [hsame, hread'] at hread
  cases hread

/-! ### The whole report -/

/-- Every file and every reference is accounted for once.

1. The report counts the source files.
2. The failures to read follow in the order of the files. They are those of the source
   files that cannot be read as UTF-8, each with the text of its failure.
3. A reference is listed exactly if it stands in a source file that can be read and no
   path that it may mean exists. None is listed twice, the files follow in their order,
   and the references of each file in the order in which its text has them.
4. No file is in both lists.
5. The unused files are some of the source files, in the same order. Those that cannot be
   read are among them, unless an import reaches them or they are entry points. -/
theorem scan_accounts (w : Workspace) (c : Config) (root : Path) :
    let files := (discover w c root).sourceFiles
    let report := scan w c root
    report.scannedFiles = files.length ∧
    (report.readErrors.Pairwise (fun r r' => r.file.compare r'.file = .lt) ∧
      ∀ r, r ∈ report.readErrors ↔
        ∃ f ∈ files, ∃ e, w.readText f.path = .error e ∧ r = ⟨f.relative, e.message⟩) ∧
    ((∀ r, r ∈ report.unresolved ↔
        ∃ f ∈ files, ∃ text, w.readText f.path = .ok text ∧ ∃ s ∈ Specifier.specifiers text,
          r = ⟨f.relative, String.ofList s⟩ ∧
          ∀ q ∈ candidatePaths c.extensions root f.directory (Path.ofChars s),
            w.pathExists q = false) ∧
      report.unresolved.Nodup ∧
      report.unresolved.Pairwise (fun r r' =>
        r.file = r'.file ∨ r.file.compare r'.file = .lt) ∧
      ∀ f ∈ files, ∀ text, w.readText f.path = .ok text →
        (report.unresolved.filter fun r => r.file = f.relative).map (·.specifier)
          = ((Specifier.specifiers text).filter fun s =>
              (candidatePaths c.extensions root f.directory (Path.ofChars s)).all
                fun q => !w.pathExists q).map String.ofList) ∧
    (∀ r ∈ report.readErrors, ∀ u ∈ report.unresolved, r.file ≠ u.file) ∧
    (report.unusedFiles.Sublist (files.map (·.relative)) ∧
      report.unusedFiles.Pairwise (fun p q => p.compare q = .lt) ∧
      ∀ f ∈ files, ∀ e, w.readText f.path = .error e →
        ¬Reaches w c root f.relative.components → c.isEntryPoint f.relative = false →
        f.relative ∈ report.unusedFiles) := by
  refine ⟨?_, ⟨sorted_readErrors w c root, fun r => mem_readErrors_iff⟩,
    ⟨fun r => ?_, nodup_unresolved w c root, pairwise_unresolved w c root,
      fun f hf text hread => unresolved_of_file hf hread⟩,
    fun r hr u hu => file_ne_of_readError hr hu,
    ⟨unusedFiles_sublist w c root, sorted_unusedFiles w c root, ?_⟩⟩
  · rw [scannedFiles_scan, found, List.length_map]
  · -- A row belongs to one import, which is a file with its text and a specifier in it.
    rw [mem_unresolved_iff]
    constructor
    · rintro ⟨f, s, ⟨hf, text, hread, hs⟩, hrow⟩
      exact ⟨f, hf, text, hread, s, hs, hrow⟩
    · rintro ⟨f, hf, text, hread, s, hs, hrow⟩
      exact ⟨f, s, ⟨hf, text, hread, hs⟩, hrow⟩
  · intro f hf e _ hnot hentry
    exact mem_unusedFiles_iff.mpr ⟨List.mem_map_of_mem hf, hentry, hnot⟩

end Unimported
