import Unimported.Proofs.Candidate
import Unimported.Proofs.Comparison

/-!
# `Unimported.Proofs.ExtensionSet`: the order of the extensions

The extensions of a configuration are a list. A scan goes through it twice: to tell the
source files by their names, and to make the variants of an import. The first is a test
for any extension, and of the variants all that exist count, not the first one. So the
order of the list has no part in a report, nor has how often an extension is in it. The
statements:

* `found_of_extensions`: the same files are found.
* `mem_candidatePaths_of_extensions`: an import has the same variants, in another order.
* `scan_of_extensions`: the reports are equal in every field.
-/

set_option autoImplicit false

namespace Unimported

open Unimported.Path

section

variable {w : Workspace} {c : Config} {extensions : List String}

/-- A name ends in one of the extensions, wherever this one is in the list. -/
theorem isSourceName_of_extensions (h : ∀ e, e ∈ extensions ↔ e ∈ c.extensions)
    (name : List Char) : { c with extensions }.isSourceName name = c.isSourceName name := by
  rw [Bool.eq_iff_iff, Config.isSourceName, Config.isSourceName, List.any_eq_true,
    List.any_eq_true]
  exact exists_congr fun e => and_congr_left fun _ => h e

/-- Which files a walk comes to depends on the extensions as a set. -/
theorem walked_of_extensions (h : ∀ e, e ∈ extensions ↔ e ∈ c.extensions) {names : List Name} :
    ∀ {dir : Path}, Walked w { c with extensions } dir names ↔ Walked w c dir names := by
  induction names with
  | nil =>
    intro dir
    exact Iff.rfl
  | cons name rest ih =>
    intro dir
    cases rest with
    | nil =>
      -- The extensions are asked for the last name only.
      show (∃ entry, (name, entry) ∈ w.list dir ∧
          ¬(entry = .directory ∧ c.isVendorPath (dir.join name.path) = true) ∧
          w.isDir (dir.join name.path) = false ∧
          { c with extensions }.isSourceName name.path.chars = true) ↔ _
      rw [isSourceName_of_extensions h]
      exact Iff.rfl
    | cons next rest =>
      show (name, .directory) ∈ w.list dir ∧ c.isVendorPath (dir.join name.path) = false ∧
          Walked w { c with extensions } (dir.join name.path) (next :: rest) ↔ _
      rw [ih]
      exact Iff.rfl

/-- The files that are found are the same, in the same order, for extensions that are the same as
a set. -/
theorem found_of_extensions (h : ∀ e, e ∈ extensions ↔ e ∈ c.extensions) (root : Path) :
    found w { c with extensions } root = found w c root := by
  refine eq_of_mem_iff (sorted_found _ _ _) (sorted_found _ _ _) fun p => ?_
  rw [mem_found_iff, mem_found_iff]
  simp only [walked_of_extensions h]
  exact Iff.rfl

/-- An import has the same variants, in whatever order the extensions give them. -/
theorem mem_candidatePaths_of_extensions (h : ∀ e, e ∈ extensions ↔ e ∈ c.extensions)
    {root dir specifier q : Path} :
    q ∈ candidatePaths extensions root dir specifier ↔
      q ∈ candidatePaths c.extensions root dir specifier := by
  rw [mem_candidatePaths_iff, mem_candidatePaths_iff]
  simp only [h]

end

/-- Only the set of extensions matters to a scan: two configurations whose lists of
extensions hold the same ones, in another order or more often, and that agree in all else,
give reports that are equal in every field. -/
theorem scan_of_extensions (w : Workspace) (c : Config) (extensions : List String) (root : Path)
    (h : ∀ e, e ∈ extensions ↔ e ∈ c.extensions) :
    scan w { c with extensions } root = scan w c root := by
  have hview : SameView w c { c with extensions } root root := by
    refine ⟨found_of_extensions h root, fun p _ => rfl, ?_, rfl⟩
    exact fun dir specifier _ _ q => mem_candidatePaths_of_extensions h
  obtain ⟨hcount, herrors, hunresolved⟩ := rows_of_sameView hview
  have hunused := unusedFiles_of_sameView hview rfl
  exact ScanReport.ext rfl hcount hunused herrors hunresolved

/-- A page whose import has a file and an index file for targets, with another extension
each, and a file that nothing imports. -/
def twoTargets : Workspace :=
  Workspace.ofFiles [("app/main.ts", "import './part'; import './gone'"), ("app/part.ts", ""),
    ("app/part/index.tsx", ""), ("app/lost.tsx", "")]

/-- Both targets are used under either order, and what has no target has none. -/
theorem scan_of_extensions_twoTargets :
    (∀ e, e ∈ [".tsx", ".ts", ".tsx"] ↔ e ∈ ({} : Config).extensions) ∧
    scan twoTargets { extensions := [".tsx", ".ts", ".tsx"] } (Path.ofString "app")
      = ⟨Path.ofString "app", 4, [Path.ofString "lost.tsx", Path.ofString "main.ts"], [],
        [⟨Path.ofString "main.ts", "./gone"⟩]⟩ := by
  have hsame : ∀ e, e ∈ [".tsx", ".ts", ".tsx"] ↔ e ∈ ({} : Config).extensions := by
    intro e
    show e ∈ [".tsx", ".ts", ".tsx"] ↔ e ∈ [".ts", ".tsx"]
    simp only [List.mem_cons, List.not_mem_nil, or_false]
    tauto
  refine ⟨hsame, ?_⟩
  have hscan := scan_of_extensions twoTargets {} [".tsx", ".ts", ".tsx"] (Path.ofString "app") hsame
  refine Eq.trans hscan ?_
  decide +kernel

end Unimported
