import Unimported.Proofs.FileTree.NormalForm
import Unimported.Proofs.Scan

/-!
# `Unimported.Proofs.DirectoryImport`: references that lead to directories

A reference is resolved by whatever exists of its variants, and a directory exists. So a
directory that is imported counts as resolved even if it has no index file, and the same goes
for a directory that is named like a file with an extension. The statements:

* `ne_link_of_lookupFrom`, `pathExists_eq`: what exists is a file or a directory.
* `unresolved_iff_kinds`: a reference is listed as unresolved if its variants are neither files
  nor directories. That no variant is a file is enough only as long as none is a directory.
* `unresolved_bareParts`: an import of a directory without an index file that is not listed.
-/

set_option autoImplicit false

namespace Unimported

/-! ### What a path can name -/

namespace FileTree

/-- A lookup that does not start at a link does not end at one. -/
theorem ne_link_of_advance {t : FileTree} {loc l : Location} {steps : List PathStep} {e : Entry}
    (hloc : ∀ target, t.entryAt loc ≠ some (.link target))
    (h : t.advance loc steps = .ended (.found l e)) : ∀ target, e ≠ .link target := by
  induction steps generalizing loc with
  | nil =>
    rw [advance] at h
    split at h
    · rename_i entry hentry
      cases h
      rintro target rfl
      exact hloc target hentry
    · cases h
  | cons step steps ih =>
    simp only [advance] at h
    split at h
    · rename_i hdir
      cases step with
      | stay => exact ih hloc h
      | up =>
        -- Above a directory there are only directories.
        refine ih (fun target => ?_) h
        rw [← List.drop_one, entryAt_drop hdir 1]
        simp
      | into bytes =>
        simp only at h
        split at h
        · cases h
        · split at h
          · split at h <;> cases h
          · cases h
          · rename_i entry hnot hentry
            refine ih (fun target heq => ?_) h
            rw [hentry] at heq
            exact hnot target (Option.some.inj heq)
    · cases h
    · cases h

/-- A link is no place to make a step from. -/
theorem ne_link_of_advance_of_ne_nil {t : FileTree} {loc l : Location} {steps : List PathStep}
    {e : Entry} (hne : steps ≠ []) (h : t.advance loc steps = .ended (.found l e)) :
    ∀ target, e ≠ .link target := by
  by_cases hdir : t.entryAt loc = some .directory
  · exact ne_link_of_advance (by simp [hdir]) h
  · obtain ⟨step, rest, rfl⟩ := List.exists_cons_of_ne_nil hne
    obtain ⟨error, hfailed⟩ := advance_of_not_directory hdir step rest
    rw [hfailed] at h
    cases h

/-- A lookup of at least one step does not end at a link. -/
theorem ne_link_of_lookupFrom {t : FileTree} (links : Nat) {loc l : Location} {e : Entry}
    {steps : List PathStep} (hne : steps ≠ [])
    (h : t.lookupFrom links loc steps = .ok (.found l e)) : ∀ target, e ≠ .link target := by
  rw [lookupFrom_eq_ok_iff] at h
  induction h with
  | ended hended => exact ne_link_of_advance_of_ne_nil hne hended
  | link _ _ _ ih => exact ih (List.append_ne_nil_of_left_ne_nil (steps_ne_nil _) _)

end FileTree

/-- What exists is a file or a directory: links are followed, and a link that leads nowhere
does not exist. -/
theorem Workspace.pathExists_eq (w : Workspace) (p : Path) :
    w.pathExists p = (w.isFile p || w.isDir p) := by
  unfold pathExists isFile isDir
  cases hstat : w.stat p with
  | error e => rfl
  | ok r =>
    obtain ⟨loc, entry⟩ := r
    cases entry with
    | directory => rfl
    | file contents => rfl
    | link target =>
      have hlookup := (locate_eq_ok_iff.mp (stat_eq_ok_iff.mp hstat)).2.2.2
      exact absurd rfl (FileTree.ne_link_of_lookupFrom _ (steps_ne_nil p) hlookup target)

/-! ### References without a file -/

/-- The base of a reference is one of its variants, unless it names nothing. -/
theorem importBase_mem_candidatePaths {extensions : List String} {root dir specifier : Path}
    (h : importBase root dir specifier ≠ Path.empty) :
    importBase root dir specifier ∈ candidatePaths extensions root dir specifier := by
  rw [candidatePaths, if_neg h]
  exact List.mem_append_left _ (List.mem_cons_self ..)

/-- When a reference of a file that can be read is listed as unresolved.

1. It is listed exactly if none of its variants is a file and none is a directory, links
   followed.
2. So whether one of them is a file decides it exactly as long as there is such a file or no
   variant is a directory.
3. An import of a directory is not listed, whether or not the directory has an index file. -/
theorem unresolved_iff_kinds {w : Workspace} {c : Config} {root : Path} {f : SourceFile}
    {s : List Char} (h : Imports w c root f s) :
    let variants := candidatePaths c.extensions root f.directory (Path.ofChars s)
    let isListed := ⟨f.relative, String.ofList s⟩ ∈ (scan w c root).unresolved
    (isListed ↔
      (∀ q ∈ variants, w.isFile q = false) ∧ ∀ q ∈ variants, w.isDir q = false) ∧
    ((isListed ↔ ∀ q ∈ variants, w.isFile q = false) ↔
      (∃ q ∈ variants, w.isFile q = true) ∨ ∀ q ∈ variants, w.isDir q = false) ∧
    (w.isDir (importBase root f.directory (Path.ofChars s)) = true → ¬isListed) := by
  intro variants isListed
  have hlisted : isListed ↔
      (∀ q ∈ variants, w.isFile q = false) ∧ ∀ q ∈ variants, w.isDir q = false := by
    simp only [isListed, mem_unresolved_iff_of_imports h, Workspace.pathExists_eq,
      Bool.or_eq_false_iff]
    exact ⟨fun hnone => ⟨fun q hq => (hnone q hq).1, fun q hq => (hnone q hq).2⟩,
      fun ⟨hfile, hdir⟩ q hq => ⟨hfile q hq, hdir q hq⟩⟩
  refine ⟨hlisted, ?_, ?_⟩
  · have hfile : (∃ q ∈ variants, w.isFile q = true) ↔ ¬∀ q ∈ variants, w.isFile q = false := by
      simp
    rw [hlisted, hfile]
    tauto
  · intro hdir hrow
    obtain ⟨loc, hstat⟩ := Workspace.isDir_iff.mp hdir
    have hne := (Workspace.locate_eq_ok_iff.mp (Workspace.stat_eq_ok_iff.mp hstat)).2.2.1
    have hnone := (hlisted.mp hrow).2 _ (importBase_mem_candidatePaths hne)
    rw [hdir] at hnone
    cases hnone

/-- The text of a page that imports a directory, another page, and nothing. -/
def partsText : String :=
  "import './parts'\nimport './page'\nimport './gone'"

/-- A tree in which the directory has no index file. -/
def bareParts : Workspace :=
  Workspace.ofFiles [("app/index.ts", partsText), ("app/parts/readme.md", ""), ("app/page.ts", "")]

/-- The page with the imports. -/
def bareIndex : SourceFile :=
  SourceFile.under (Path.ofString "app") (Path.ofString "index.ts")

/-- What the text of the page names, the page imports. -/
theorem imports_bareParts {s : List Char} (h : s ∈ Specifier.specifiers partsText.toList) :
    Imports bareParts {} (Path.ofString "app") bareIndex s := by
  refine ⟨?_, partsText.toList, ?_, h⟩ <;> decide +kernel

/-- The last import has neither a file nor a directory, and it is listed. The first one is
of a directory, and it is not. -/
theorem unresolved_iff_kinds_bareParts :
    (Imports bareParts {} (Path.ofString "app") bareIndex "./gone".toList ∧
      Imports bareParts {} (Path.ofString "app") bareIndex "./parts".toList) ∧
    let rows := (scan bareParts {} (Path.ofString "app")).unresolved
    ⟨Path.ofString "index.ts", "./gone"⟩ ∈ rows ∧ ⟨Path.ofString "index.ts", "./parts"⟩ ∉ rows := by
  have hgone := imports_bareParts (s := "./gone".toList) (by decide +kernel)
  have hparts := imports_bareParts (s := "./parts".toList) (by decide +kernel)
  refine ⟨⟨hgone, hparts⟩, (unresolved_iff_kinds hgone).1.mpr ⟨?_, ?_⟩,
    (unresolved_iff_kinds hparts).2.2 ?_⟩ <;> decide +kernel

/-- So an import is not listed although none of its variants is a file. -/
theorem unresolved_bareParts :
    Imports bareParts {} (Path.ofString "app") bareIndex "./parts".toList ∧
      ¬(⟨Path.ofString "index.ts", "./parts"⟩
            ∈ (scan bareParts {} (Path.ofString "app")).unresolved ↔
        ∀ q ∈ candidatePaths ({} : Config).extensions (Path.ofString "app") bareIndex.directory
          (Path.ofChars "./parts".toList), bareParts.isFile q = false) := by
  refine ⟨imports_bareParts ?_, ?_⟩ <;> decide +kernel

end Unimported
