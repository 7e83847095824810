import Unimported.Proofs.Candidate
import Unimported.Proofs.Comparison
import Unimported.Proofs.FileTree.Spelling
import Unimported.Proofs.VendorPath

/-!
# `Unimported.Proofs.RootSpelling`: one root, spelled in two ways

The root is used as it was written: every path of a walk starts with it, the vendor test
looks at all of it, and files are read by it. Still it is the same directory in every
spelling, and none of these uses sees more than its active segments. Only the walk knows a
root by its components before it looks at any file: what reads as a lone `-` is standard
input to it, under which there are no files. A slash behind that `-` is no component, but a
`.` in front of it is one, so the first is standard input still and the second a directory.
The statements:

* `walked_of_respells`: a walk comes to the same files behind either spelling.
* `sameView_of_respells`: two spellings that are both standard input, or both not, show
  the same files.
* `scan_respelled_iff`: the reports of two spellings differ in nothing but the root, unless
  one of them is standard input and the other one has files.
-/

set_option autoImplicit false

namespace Unimported

open Unimported.Path

section

variable {w : Workspace} {c : Config}

/-- A walk comes to the same files behind either spelling of a directory, as long as both
paths are short enough. -/
theorem walked_of_respells (hslash : '/' ∉ c.vendorDir.toList) (hdot : c.vendorDir ≠ ".")
    {names : List Name} :
    ∀ {dir dir' : Path}, Respells dir dir' → dir' ≠ Path.empty →
      (dir.join (ofNames names)).bytes.length < pathLimit →
      (dir'.join (ofNames names)).bytes.length < pathLimit →
      Walked w c dir names → Walked w c dir' names := by
  induction names with
  | nil => exact fun _ _ _ _ h => h
  | cons name rest ih =>
    intro dir dir' hsame hne hshort hshort' h
    have hrelative : name.path.isAbsolute = false := Workspace.isAbsolute_path name
    have hnamed : name.path ≠ Path.empty := by
      intro hempty
      exact name.ne_idle.1 (Or.inl (congrArg Path.bytes hempty))
    have hdir' : dir'.bytes.length < pathLimit :=
      Nat.lt_of_le_of_lt (length_le_join dir' _ (isAbsolute_ofNames _)) hshort'
    -- Both are one directory, so they list the same names.
    have hlist : ∀ e, (name, e) ∈ w.list dir → (name, e) ∈ w.list dir' := by
      intro e hmem
      obtain ⟨loc, hloc, hentry⟩ := Workspace.mem_list_iff.mp hmem
      have hloc' := Workspace.stat_directory_of_respells hsame hne hdir' hloc
      exact Workspace.mem_list_iff.mpr ⟨loc, hloc', hentry⟩
    have hvendor : c.isVendorPath (dir'.join name.path) = c.isVendorPath (dir.join name.path) :=
      isVendorPath_of_respells hslash hdot (hsame.symm.join hrelative)
    cases rest with
    | nil =>
      obtain ⟨entry, hmem, hallowed, hnotDir, hsource⟩ := h
      rw [ofNames_singleton] at hshort hshort'
      have hisDir : w.isDir (dir'.join name.path) = w.isDir (dir.join name.path) := by
        unfold Workspace.isDir
        rw [Workspace.stat_join_of_respells hsame hrelative hnamed hshort hshort']
      refine ⟨entry, hlist entry hmem, ?_, hisDir.trans hnotDir, hsource⟩
      rw [hvendor]
      exact hallowed
    | cons next rest =>
      obtain ⟨hmem, hallowed, hwalked⟩ := h
      have hmore : next :: rest ≠ [] := List.cons_ne_nil next rest
      refine ⟨hlist _ hmem, hvendor.trans hallowed, ?_⟩
      -- With the name behind them they are spellings of one path still.
      refine ih (hsame.join hrelative) (join_ne_empty dir' hrelative hnamed) ?_ ?_ hwalked
      · rw [join_join_names dir name hmore]
        exact hshort
      · rw [join_join_names dir' name hmore]
        exact hshort'

variable {root root' : Path}

/-- What is found behind one spelling of a root is found behind another one, unless this is
standard input. -/
theorem mem_found_of_respells (hslash : '/' ∉ c.vendorDir.toList) (hdot : c.vendorDir ≠ ".")
    (hsame : Respells root root') (hne : root' ≠ Path.empty)
    (hinput : root'.sameAs standardInput = root.sameAs standardInput) {p : Path}
    (hshort : (root.join p).bytes.length < pathLimit ∧ (root'.join p).bytes.length < pathLimit)
    (hp : p ∈ found w c root) : p ∈ found w c root' := by
  obtain ⟨hvendor, hnotInput, names, hwalked, rfl⟩ := mem_found_iff.mp hp
  refine mem_found_iff.mpr ⟨?_, hinput.trans hnotInput, names, ?_, rfl⟩
  · rw [← isVendorPath_of_respells hslash hdot hsame]
    exact hvendor
  · exact walked_of_respells hslash hdot hsame hne hshort.1 hshort.2 hwalked

/-- An import tries the same paths behind either spelling of a root. -/
theorem candidatePaths_of_respells (hsame : Respells root root') (extensions : List String)
    {dir specifier : Path} (hdir : dir.isAbsolute = false)
    (hspecifier : specifier.isAbsolute = false) :
    candidatePaths extensions root' dir specifier
      = candidatePaths extensions root dir specifier := by
  have hbase : importBase root' dir specifier = importBase root dir specifier := by
    rw [importBase_eq, importBase_eq, baseComponents, baseComponents,
      ((hsame.join hdir).join hspecifier).normalComponents_eq]
  rw [candidatePaths, candidatePaths, hbase]

/-- Two spellings of a root show the same files, once they find the same ones. -/
theorem sameView_of_respells (hsame : Respells root root')
    (hfound : found w c root' = found w c root)
    (hshort : ∀ p ∈ found w c root,
      (root.join p).bytes.length < pathLimit ∧ (root'.join p).bytes.length < pathLimit) :
    SameView w c c root root' where
  found := hfound
  text := by
    intro p hp
    obtain ⟨hlength, hlength'⟩ := hshort p hp
    obtain ⟨-, -, names, hwalked, rfl⟩ := mem_found_iff.mp hp
    have hne : ofNames names ≠ Path.empty := by
      intro hempty
      refine components_ne_nil_of_found hp ?_
      rw [hempty]
      rfl
    exact Workspace.readText_congr
      (Workspace.stat_join_of_respells hsame (isAbsolute_ofNames names) hne hlength hlength').symm
  -- An import starts from the normal form of its directory, which is the same.
  candidates := by
    intro dir specifier hdir hspecifier q
    rw [candidatePaths_of_respells hsame c.extensions hdir hspecifier]
  normal := hsame.normalComponents_eq.symm

end

/-- Two spellings of one root give the same report, apart from the root itself, if both are
standard input or neither is. Otherwise they do so exactly if there is nothing to find. The
text that marks vendor directories has no slash and is not `.`, neither spelling is empty,
and the files that are found have paths short enough to be read. -/
theorem scan_respelled_iff (w : Workspace) (c : Config) (root root' : Path)
    (hslash : '/' ∉ c.vendorDir.toList) (hdot : c.vendorDir ≠ ".")
    (hne : root ≠ Path.empty) (hne' : root' ≠ Path.empty) (hsame : Respells root root')
    (hshort : ∀ p, p ∈ found w c root ∨ p ∈ found w c root' →
      (root.join p).bytes.length < pathLimit ∧ (root'.join p).bytes.length < pathLimit) :
    scan w c root' = { scan w c root with root := root' } ↔
      root'.sameAs standardInput = root.sameAs standardInput ∨
        (found w c root = [] ∧ found w c root' = []) := by
  have hview : found w c root' = found w c root →
      scan w c root' = { scan w c root with root := root' } := by
    intro hfound
    have hview := sameView_of_respells hsame hfound fun p hp => hshort p (Or.inl hp)
    obtain ⟨hcount, herrors, hunresolved⟩ := rows_of_sameView hview
    have hunused := unusedFiles_of_sameView hview rfl
    exact ScanReport.ext rfl hcount hunused herrors hunresolved
  constructor
  · intro hreport
    by_cases hinput : root'.sameAs standardInput = root.sameAs standardInput
    · exact Or.inl hinput
    · -- One of the two has no files, and so the other one has none either.
      have hcount : (found w c root').length = (found w c root).length := by
        rw [← scannedFiles_scan, ← scannedFiles_scan, hreport]
      have hnone : ∀ r : Path, r.sameAs standardInput = true → found w c r = [] := by
        intro r hr
        refine List.eq_nil_iff_forall_not_mem.mpr fun p hp => ?_
        obtain ⟨-, hnot, -⟩ := mem_found_iff.mp hp
        rw [hr] at hnot
        cases hnot
      refine Or.inr ?_
      cases h : root.sameAs standardInput with
      | true =>
        have hfound := hnone root h
        rw [hfound, List.length_nil, List.length_eq_zero_iff] at hcount
        exact ⟨hfound, hcount⟩
      | false =>
        have hfound' := hnone root' (by simpa [h] using hinput)
        rw [hfound', List.length_nil, eq_comm, List.length_eq_zero_iff] at hcount
        exact ⟨hcount, hfound'⟩
  · rintro (hinput | ⟨hfound, hfound'⟩)
    · refine hview (eq_of_mem_iff (sorted_found _ _ _) (sorted_found _ _ _) fun p => ?_)
      constructor
      · intro hp
        have hlength := hshort p (Or.inr hp)
        exact mem_found_of_respells hslash hdot hsame.symm hne hinput.symm
          ⟨hlength.2, hlength.1⟩ hp
      · intro hp
        exact mem_found_of_respells hslash hdot hsame hne' hinput (hshort p (Or.inl hp)) hp
    · exact hview (hfound'.trans hfound.symm)

/-- The name that stands for standard input when it is a root of its own. -/
def dashName : Name := ⟨Utf8.encode "-".toList, by decide +kernel⟩

/-- A directory of that name with one file. -/
def dashWorkspace : Workspace :=
  ⟨(FileTree.empty.place [dashName] .directory).place (Location.ofString "a.ts" ++ [dashName])
    (.file []), []⟩

/-- The directory with a slash behind its name, which a walk takes for standard input. -/
def dashedRoot : Path := dashName.path.append [slash]

/-- The directory with a `.` in front of its name, which a walk goes into. -/
def dottedRoot : Path := (Path.ofString ".").join dashName.path

/-- The spelling of a root does matter where it is standard input in one spelling, although
neither of the two is the lone `-`. -/
theorem scan_dashedRoot_ne_scan_dottedRoot :
    ('/' ∉ ({} : Config).vendorDir.toList ∧ ({} : Config).vendorDir ≠ "." ∧
      dashedRoot ≠ Path.empty ∧ dottedRoot ≠ Path.empty ∧ Respells dashedRoot dottedRoot ∧
      dashedRoot ≠ standardInput ∧ dottedRoot ≠ standardInput ∧
      ∀ p, p ∈ found dashWorkspace {} dashedRoot ∨ p ∈ found dashWorkspace {} dottedRoot →
        (dashedRoot.join p).bytes.length < pathLimit ∧
          (dottedRoot.join p).bytes.length < pathLimit) ∧
    (scan dashWorkspace {} dashedRoot).scannedFiles
      ≠ (scan dashWorkspace {} dottedRoot).scannedFiles ∧
    (scan dashWorkspace {} dashedRoot).unusedFiles
      ≠ (scan dashWorkspace {} dottedRoot).unusedFiles := by
  have hshort : ∀ p ∈ found dashWorkspace {} dashedRoot ++ found dashWorkspace {} dottedRoot,
      (dashedRoot.join p).bytes.length < pathLimit ∧
        (dottedRoot.join p).bytes.length < pathLimit := by decide +kernel
  refine ⟨⟨?_, ?_, ?_, ?_, ?_, ?_, ?_, fun p hp => hshort p (List.mem_append.mpr hp)⟩, ?_, ?_⟩
  all_goals decide +kernel

/-- A page whose imports have a target, come back into its directory by the name of this,
and have no target. There is a vendor directory and a file that is no text. -/
def spelledApp : Workspace :=
  let files := Workspace.ofFiles [
    ("app/main.ts", "import './part'; import '../app/lib/kept'; import './gone'"),
    ("app/part.ts", ""), ("app/lib/kept.tsx", ""), ("app/lib/lost.ts", ""),
    ("app/node_modules/dep.ts", "")]
  { files with tree := files.tree.place (Location.ofString "app/broken.ts") (.file [0xFF]) }

/-- Such a page gives the same report in two spellings of its directory. -/
theorem scan_respelled_iff_spelledApp :
    ('/' ∉ ({} : Config).vendorDir.toList ∧ ({} : Config).vendorDir ≠ "." ∧
      Path.ofString "app/." ≠ Path.empty ∧ Path.ofString "./app//" ≠ Path.empty ∧
      Respells (Path.ofString "app/.") (Path.ofString "./app//") ∧
      ∀ p, p ∈ found spelledApp {} (Path.ofString "app/.") ∨
          p ∈ found spelledApp {} (Path.ofString "./app//") →
        ((Path.ofString "app/.").join p).bytes.length < pathLimit ∧
          ((Path.ofString "./app//").join p).bytes.length < pathLimit) ∧
    scan spelledApp {} (Path.ofString "./app//")
      = ⟨Path.ofString "./app//", 5,
        [Path.ofString "broken.ts", Path.ofString "lib/lost.ts", Path.ofString "main.ts"],
        [⟨Path.ofString "broken.ts", IoError.notText.message⟩],
        [⟨Path.ofString "main.ts", "./gone"⟩]⟩ := by
  have hslash : '/' ∉ ({} : Config).vendorDir.toList := by decide +kernel
  have hdot : ({} : Config).vendorDir ≠ "." := by decide +kernel
  have hne : Path.ofString "app/." ≠ Path.empty := by decide +kernel
  have hne' : Path.ofString "./app//" ≠ Path.empty := by decide +kernel
  have hsame : Respells (Path.ofString "app/.") (Path.ofString "./app//") := by decide +kernel
  have hlengths : ∀ p ∈ found spelledApp {} (Path.ofString "app/.") ++
        found spelledApp {} (Path.ofString "./app//"),
      ((Path.ofString "app/.").join p).bytes.length < pathLimit ∧
        ((Path.ofString "./app//").join p).bytes.length < pathLimit := by decide +kernel
  have hshort : ∀ p, p ∈ found spelledApp {} (Path.ofString "app/.") ∨
        p ∈ found spelledApp {} (Path.ofString "./app//") →
      ((Path.ofString "app/.").join p).bytes.length < pathLimit ∧
        ((Path.ofString "./app//").join p).bytes.length < pathLimit :=
    fun p hp => hlengths p (List.mem_append.mpr hp)
  refine ⟨⟨hslash, hdot, hne, hne', hsame, hshort⟩, ?_⟩
  have hreport := (scan_respelled_iff spelledApp {} (Path.ofString "app/.")
    (Path.ofString "./app//") hslash hdot hne hne' hsame hshort).mpr
  rw [hreport (Or.inl (by decide +kernel))]
  decide +kernel

end Unimported
