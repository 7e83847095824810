import Unimported.Proofs.Scan

/-!
# `Unimported.Proofs.Comparison`: two scans of the same files

A scan looks at the files of its workspace through the spelling of its root and through
its configuration. Two scans that find the same files under their roots, read the same
texts in them and try the same paths for their imports cannot report different things.
This module says so once, for every comparison that leaves the files alone. The
statements:

* `SameView` has what the two scans share.
* `imports_of_sameView`, `reaches_of_sameView`: both scans have the same imports, and these
  reach the same files.
* `rows_of_sameView`: the number of files and the two lists of trouble are the same.
* `unusedFiles_of_sameView`: where the entry points are the same as well, so are the files
  that nothing imports.
-/

set_option autoImplicit false

namespace Unimported

open Unimported.Path

/-- What two scans of one workspace share, so that they report the same. -/
structure SameView (w : Workspace) (c c' : Config) (root root' : Path) : Prop where
  /-- Both find the same files under their roots. -/
  found : found w c' root' = found w c root
  /-- Both read the same text in a file, or fail to read it for the same reason. -/
  text : ∀ p ∈ Unimported.found w c root,
    w.readText (root'.join p) = w.readText (root.join p)
  /-- Both try the same paths for an import, in whatever order. -/
  candidates : ∀ dir specifier : Path, dir.isAbsolute = false → specifier.isAbsolute = false →
    ∀ q, q ∈ candidatePaths c'.extensions root' dir specifier ↔
      q ∈ candidatePaths c.extensions root dir specifier
  /-- The two roots have the same normal form. -/
  normal : root'.normalComponents = root.normalComponents

namespace SameView

variable {w : Workspace} {c c' : Config} {root root' : Path}

/-- It does not matter which of the two scans is named first. -/
theorem symm (h : SameView w c c' root root') : SameView w c' c root' root where
  found := h.found.symm
  text p hp := (h.text p (h.found ▸ hp)).symm
  candidates dir specifier hdir hspecifier q := (h.candidates dir specifier hdir hspecifier q).symm
  normal := h.normal.symm

end SameView

section

variable {w : Workspace} {c c' : Config} {root root' : Path}

/-- Both scans have the same imports. -/
theorem imports_of_sameView (h : SameView w c c' root root') {p : Path} {s : List Char}
    (himports : Imports w c root (SourceFile.under root p) s) :
    Imports w c' root' (SourceFile.under root' p) s := by
  obtain ⟨hf, text, hread, hs⟩ := himports
  have hp : p ∈ found w c root := under_mem_sourceFiles_iff.mp hf
  refine ⟨under_mem_sourceFiles_iff.mpr (h.found ▸ hp), text, ?_, hs⟩
  show w.readText (root'.join p) = .ok text
  rw [h.text p hp]
  exact hread

/-- What the imports of one scan reach, those of the other one reach too. -/
theorem reaches_of_sameView (h : SameView w c c' root root') {cs : List Component}
    (hreaches : Reaches w c root cs) : Reaches w c' root' cs := by
  obtain ⟨f, s, himports, q, hq, hexists, hcs⟩ := hreaches
  have hdir := isAbsolute_directory himports.1
  have hspecifier : (Path.ofChars s).isAbsolute = false := by
    obtain ⟨-, text, -, hs⟩ := himports
    exact isAbsolute_specifier hs
  have hunder := eq_under_of_mem himports.1
  rw [hunder] at himports hdir hq
  -- The directory of a file is seen from the root, whatever the root is called.
  refine ⟨_, s, imports_of_sameView h himports, q, ?_, hexists, ?_⟩
  · exact (h.candidates _ _ hdir hspecifier q).mpr hq
  · rw [h.normal]
    exact hcs

/-- A specifier has a target in both scans or in none. -/
theorem unresolvedIn_of_sameView (h : SameView w c c' root root') {p : Path}
    (hp : p ∈ found w c root) :
    unresolvedIn w c' root' (SourceFile.under root' p)
      = unresolvedIn w c root (SourceFile.under root p) := by
  have hdir := isAbsolute_directory (under_mem_sourceFiles_iff.mpr hp)
  have hread : w.readText (SourceFile.under root' p).path
      = w.readText (SourceFile.under root p).path := h.text p hp
  unfold unresolvedIn
  rw [hread]
  cases w.readText (SourceFile.under root p).path with
  | error e => rfl
  | ok text =>
    refine List.filter_congr fun s hs => ?_
    rw [Bool.eq_iff_iff, List.all_eq_true, List.all_eq_true]
    exact forall_congr' fun q =>
      imp_congr_left (h.candidates _ _ hdir (isAbsolute_specifier hs) q)

/-- Two scans of the same files have the same number of files, the same failures to read
and the same references without a target. -/
theorem rows_of_sameView (h : SameView w c c' root root') :
    (scan w c' root').scannedFiles = (scan w c root).scannedFiles ∧
      (scan w c' root').readErrors = (scan w c root).readErrors ∧
      (scan w c' root').unresolved = (scan w c root).unresolved := by
  refine ⟨?_, ?_, ?_⟩
  · rw [scannedFiles_scan, scannedFiles_scan, h.found]
  · rw [readErrors_scan, readErrors_scan, h.found]
    refine List.filterMap_congr fun p hp => ?_
    rw [h.text p hp]
  · rw [unresolved_scan, unresolved_scan, h.found]
    refine List.flatMap_congr fun p hp => ?_
    rw [unresolvedIn_of_sameView h hp]

/-- With the same entry points, the same files are left without an import. -/
theorem unusedFiles_of_sameView (h : SameView w c c' root root')
    (hentry : c'.entryPoints = c.entryPoints) :
    (scan w c' root').unusedFiles = (scan w c root).unusedFiles := by
  have hpoint : ∀ p, c'.isEntryPoint p = c.isEntryPoint p := by
    intro p
    rw [Config.isEntryPoint, Config.isEntryPoint, hentry]
  have hreaches : ∀ cs, Reaches w c' root' cs ↔ Reaches w c root cs :=
    fun cs => ⟨reaches_of_sameView h.symm, reaches_of_sameView h⟩
  refine eq_of_mem_iff (sorted_unusedFiles _ _ _) (sorted_unusedFiles _ _ _) fun p => ?_
  rw [mem_unusedFiles_iff, mem_unusedFiles_iff, h.found, hpoint, hreaches]

end

end Unimported
