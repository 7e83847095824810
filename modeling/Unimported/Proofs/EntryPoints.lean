import Unimported.CommandLine
import Unimported.Proofs.UnusedFiles

/-!
# `Unimported.Proofs.EntryPoints`: what an entry point changes

Entry points are asked for at one place only: when the files without an import are
listed. Before that, a scan looks at no field of the configuration but the extensions and
the text that marks vendor directories. So it comes to the same files, reads the same
imports in them, those of an entry point included, and finds the same targets. The
statements:

* `survey_congr`: what a scan sees depends on these two fields.
* `unused_of_moreEntryPoints`: further entry points are taken out of the list.
* `scan_of_moreEntryPoints`: the report of a scan with further entry points, and of a
  command that has them as options.
-/

set_option autoImplicit false

namespace Unimported

/-! ### What a scan sees -/

section

variable {c c' : Config}

/-- A walk looks at nothing of a configuration but the vendor directory and the extensions. -/
theorem walk_congr (w : Workspace) (hvendor : c'.vendorDir = c.vendorDir)
    (hextensions : c'.extensions = c.extensions) (fuel : Nat) :
    ∀ dir relative : Path, walk w c' fuel dir relative = walk w c fuel dir relative := by
  have htest : ∀ p, c'.isVendorPath p = c.isVendorPath p := by
    intro p
    rw [Config.isVendorPath, Config.isVendorPath, hvendor]
  have hname : ∀ name, c'.isSourceName name = c.isSourceName name := by
    intro name
    rw [Config.isSourceName, Config.isSourceName, hextensions]
  induction fuel with
  | zero =>
    intro dir relative
    rfl
  | succ fuel ih =>
    intro dir relative
    simp only [walk, htest, hname, ih]

/-- Nor does the search for source files look at more. -/
theorem discover_congr (w : Workspace) (hvendor : c'.vendorDir = c.vendorDir)
    (hextensions : c'.extensions = c.extensions) (root : Path) :
    discover w c' root = discover w c root := by
  unfold discover
  rw [walk_congr w hvendor hextensions, Config.isVendorPath, Config.isVendorPath, hvendor]

/-- What a scan sees depends on the vendor text and the extensions. -/
theorem survey_congr (w : Workspace) (hvendor : c'.vendorDir = c.vendorDir)
    (hextensions : c'.extensions = c.extensions) (root : Path) :
    survey w c' root = survey w c root := by
  unfold survey
  rw [discover_congr w hvendor hextensions, hextensions]

end

/-! ### Further entry points -/

variable {c : Config} {names : List String}

/-- With more entry points a file is none exactly if it was none and has none of the new names. -/
theorem isEntryPoint_of_moreEntryPoints (p : Path) :
    { c with entryPoints := c.entryPoints ++ names }.isEntryPoint p = false ↔
      c.isEntryPoint p = false ∧ ∀ e ∈ names, p.fileName? ≠ some (Utf8.encode e.toList) := by
  simp only [isEntryPoint_eq_false_iff, List.forall_mem_append]

/-- The files without an import, for further entry points, are those of before that have
none of the new names. -/
theorem unused_of_moreEntryPoints (candidates : List Path) (all : Targets) :
    unused { c with entryPoints := c.entryPoints ++ names } candidates all
      = (unused c candidates all).filter fun p =>
          ∀ e ∈ names, p.fileName? ≠ some (Utf8.encode e.toList) := by
  unfold unused
  rw [List.filter_filter]
  refine List.filter_congr fun p _ => ?_
  rw [Bool.eq_iff_iff, Bool.and_eq_true, decide_eq_true_iff, Bool.not_eq_true', Bool.not_eq_true',
    isEntryPoint_of_moreEntryPoints, and_comm]

/-- Entry points have no part in what a scan looks at. -/
theorem survey_of_moreEntryPoints (w : Workspace) (root : Path) :
    survey w { c with entryPoints := c.entryPoints ++ names } root = survey w c root := by
  apply survey_congr
  · rfl
  · rfl

/-- The report of a configuration with further entry points. -/
theorem scan_with_moreEntryPoints (w : Workspace) (root : Path) :
    scan w { c with entryPoints := c.entryPoints ++ names } root
      = { scan w c root with
          unusedFiles := (scan w c root).unusedFiles.filter fun p =>
            ∀ e ∈ names, p.fileName? ≠ some (Utf8.encode e.toList) } := by
  show (survey w { c with entryPoints := c.entryPoints ++ names } root).report _ = _
  rw [survey_of_moreEntryPoints]
  -- No other field of a report looks at the entry points.
  exact congrArg (fun files => { (survey w c root).report c with unusedFiles := files })
    (unused_of_moreEntryPoints _ _)

/-- Further entry points are put over a configuration like entry points of its own. -/
theorem override_of_moreEntryPoints (command : Command) :
    { command with entryPoints := command.entryPoints ++ names }.override c
      = { command.override c with
          entryPoints := (command.override c).entryPoints ++ names } := by
  show Config.normalized _ = _
  unfold Config.normalized
  simp only [← List.append_assoc]
  rfl

/-- Entry points only take files out of the list of a report.

1. A scan with further entry points finds the same files, and each of them gives the same
   references, targets and failures as without, so that what an entry point imports counts
   all the same.
2. The report is equal in every field but the files without an import. These are the ones
   of before, in the same order, without those whose last name is one of the new entry
   points in UTF-8.
3. It is no different for a command that has further entry points as options, whatever
   configuration it is put over. -/
theorem scan_of_moreEntryPoints (w : Workspace) (c : Config) (root : Path)
    (names : List String) :
    survey w { c with entryPoints := c.entryPoints ++ names } root = survey w c root ∧
    scan w { c with entryPoints := c.entryPoints ++ names } root
      = { scan w c root with
          unusedFiles := (scan w c root).unusedFiles.filter fun p =>
            ∀ e ∈ names, p.fileName? ≠ some (Utf8.encode e.toList) } ∧
    ∀ command : Command,
      scan w ({ command with entryPoints := command.entryPoints ++ names }.override c) root
        = { scan w (command.override c) root with
            unusedFiles := (scan w (command.override c) root).unusedFiles.filter fun p =>
              ∀ e ∈ names, p.fileName? ≠ some (Utf8.encode e.toList) } := by
  refine ⟨survey_of_moreEntryPoints w root, scan_with_moreEntryPoints w root, ?_⟩
  intro command
  -- The options of a command come behind the entry points that the configuration has.
  rw [override_of_moreEntryPoints]
  exact scan_with_moreEntryPoints w root

end Unimported
