import Unimported.Proofs.RootSpelling

/-!
# `Unimported.Proofs.SourceFiles`: the source files under a root

A walk prunes a directory as soon as its path is a vendor path, and it never comes to what
is below. What it leaves can be said of each file by itself. The path of a directory, as it is
shown, begins with the paths of all directories around it, so that one test of the last
directory settles all of them. `IsSource` is this description: it tests no directory but the
one around the file, and of the file it tests the extension only.

A root that is the lone `-` component is the exception. A walk takes it for standard input,
also where a slash stands behind it, and finds nothing there. The statements:

* `walked_iff`: pruning on the way is one test at its end.
* `walked_iff_isSource`: a walk comes to exactly the files of this description.
* `discover_exact`: what is found under a root, and in which order.
* `discover_dashedRoot`: a directory that is not looked into, although it is not spelled `-`.
-/

set_option autoImplicit false

namespace Unimported

open Unimported.Path

/-- The directory to which these names lead. -/
def within (root : Path) (dirs : List Name) : Path :=
  dirs.foldl (fun p n => p.join n.path) root

/-- What makes a source file of the entry that these names lead to. -/
structure IsSource (w : Workspace) (c : Config) (root : Path) (dirs : List Name) (file : Name) :
    Prop where
  /-- The names lead through directories that are no links, from one into the other, to an
  entry of the last of them, and this entry is no directory. -/
  entry : ∃ loc e, w.stat root = .ok (loc, .directory) ∧
    (∀ above, above <+: dirs → w.tree.entryAt (above.reverse ++ loc) = some .directory) ∧
    w.tree.entryAt (file :: (dirs.reverse ++ loc)) = some e ∧ e ≠ .directory
  /-- It is no link to a directory either. -/
  notDir : w.isDir (root.join (ofNames (dirs ++ [file]))) = false
  /-- The name of the file, as it is shown, ends in one of the extensions. -/
  name : ∃ x ∈ c.extensions, x.toList <:+ file.path.chars
  /-- The path of the directory around it, as it is shown, does not contain the text that
  marks vendor directories. -/
  allowed : c.vendorDir = "" ∨ ¬c.vendorDir.toList <:+: (within root dirs).chars

/-- A name is that of a source file if it ends in one of the extensions. -/
theorem isSourceName_iff {c : Config} {name : List Char} :
    c.isSourceName name = true ↔ ∃ x ∈ c.extensions, x.toList <:+ name := by
  rw [Config.isSourceName, List.any_eq_true]
  simp only [List.isSuffixOf_iff_suffix]

/-! ### The files of a walk -/

/-- A walk comes to a file further down through a directory that is listed and is no vendor
directory. -/
theorem walked_cons {w : Workspace} {c : Config} {dir : Path} {name : Name} {names : List Name}
    (hne : names ≠ []) :
    Walked w c dir (name :: names) ↔ (name, .directory) ∈ w.list dir ∧
      c.isVendorPath (dir.join name.path) = false ∧ Walked w c (dir.join name.path) names := by
  obtain ⟨next, rest, rfl⟩ := List.exists_cons_of_ne_nil hne
  exact Iff.rfl

/-- A file in the directory where a walk starts. -/
theorem walked_singleton_iff {w : Workspace} {c : Config} {dir : Path} {loc : Location}
    {file : Name} (hdir : w.stat dir = .ok (loc, .directory))
    (hshort : (dir.join file.path).bytes.length < pathLimit) :
    Walked w c dir [file] ↔ (∃ e, w.tree.entryAt (file :: loc) = some e) ∧
      w.isDir (dir.join file.path) = false ∧ c.isSourceName file.path.chars = true := by
  constructor
  · rintro ⟨e, hmem, -, hnotDir, hsource⟩
    exact ⟨⟨e, (Workspace.mem_list_iff_entryAt hdir).mp hmem⟩, hnotDir, hsource⟩
  · rintro ⟨⟨e, he⟩, hnotDir, hsource⟩
    refine ⟨e, (Workspace.mem_list_iff_entryAt hdir).mpr he, ?_, hnotDir, hsource⟩
    -- A directory with a path this short is seen as one.
    rintro ⟨rfl, -⟩
    exact Workspace.stat_ne_directory hnotDir (Workspace.stat_join hdir he (by simp) hshort)

/-- A walk that starts outside of vendor directories comes to a file by its names exactly if
these lead to it, and the directory around it is no vendor directory. -/
theorem walked_iff {w : Workspace} {c : Config} {dirs : List Name} {file : Name} :
    ∀ {dir : Path} {loc : Location}, w.stat dir = .ok (loc, .directory) →
      (dir.join (ofNames (dirs ++ [file]))).bytes.length < pathLimit →
      (c.isVendorPath dir = false ∧ Walked w c dir (dirs ++ [file]) ↔
        (∃ e, w.tree.entryAt (file :: (dirs.reverse ++ loc)) = some e) ∧
          w.isDir (dir.join (ofNames (dirs ++ [file]))) = false ∧
          c.isSourceName file.path.chars = true ∧ c.isVendorPath (within dir dirs) = false) := by
  induction dirs with
  | nil =>
    intro dir loc hdir hshort
    rw [List.nil_append, ofNames_singleton] at hshort ⊢
    rw [walked_singleton_iff hdir hshort]
    show _ ∧ _ ↔ _ ∧ _ ∧ _ ∧ c.isVendorPath dir = false
    tauto
  | cons name dirs ih =>
    intro dir loc hdir hshort
    have hmore : dirs ++ [file] ≠ [] := by simp
    rw [List.cons_append] at hshort ⊢
    rw [← join_join_names dir name hmore] at hshort ⊢
    have hbelow : (dir.join name.path).bytes.length < pathLimit :=
      Nat.lt_of_le_of_lt (length_le_join _ _ (isAbsolute_ofNames _)) hshort
    have hloc : (name :: dirs).reverse ++ loc = dirs.reverse ++ name :: loc := by simp
    have hstat : w.tree.entryAt (name :: loc) = some .directory →
        w.stat (dir.join name.path) = .ok (name :: loc, .directory) :=
      fun he => Workspace.stat_join hdir he (by simp) hbelow
    rw [walked_cons hmore, Workspace.mem_list_iff_entryAt hdir, hloc]
    show _ ↔ _ ∧ _ ∧ _ ∧ c.isVendorPath (within (dir.join name.path) dirs) = false
    -- Below the first name the induction applies, since a directory is there either way.
    constructor
    · rintro ⟨-, he, hallowed, hwalked⟩
      exact (ih (hstat he) hshort).mp ⟨hallowed, hwalked⟩
    · intro h
      obtain ⟨e, he⟩ := h.1
      have habove := FileTree.entryAt_of_append he
      obtain ⟨hallowed, hwalked⟩ := (ih (hstat habove) hshort).mpr h
      exact ⟨isVendorPath_of_join (Workspace.isAbsolute_path name) hallowed, habove, hallowed,
        hwalked⟩

/-- A walk comes to exactly the files of the description. -/
theorem walked_iff_isSource {w : Workspace} {c : Config} {root : Path} {dirs : List Name}
    {file : Name} (hshort : (root.join (ofNames (dirs ++ [file]))).bytes.length < pathLimit) :
    c.isVendorPath root = false ∧ Walked w c root (dirs ++ [file]) ↔
      IsSource w c root dirs file := by
  constructor
  · intro h
    obtain ⟨loc, hroot⟩ := stat_of_walked h.2
    obtain ⟨⟨e, he⟩, hnotDir, hsource, hallowed⟩ := (walked_iff hroot hshort).mp h
    refine ⟨⟨loc, e, hroot, ?_, he, ?_⟩, hnotDir, isSourceName_iff.mp hsource,
      isVendorPath_eq_false_iff.mp hallowed⟩
    · rintro above ⟨below, rfl⟩
      rw [List.reverse_append, List.append_assoc] at he
      exact FileTree.entryAt_of_append he
    · rintro rfl
      have he' : w.tree.entryAt ((dirs ++ [file]).reverse ++ loc) = some .directory := by
        simpa using he
      exact Workspace.stat_ne_directory hnotDir (stat_join_below hroot (by simp) he' rfl hshort)
  · intro h
    obtain ⟨loc, e, hroot, -, he, -⟩ := h.entry
    exact (walked_iff hroot hshort).mpr ⟨⟨e, he⟩, h.notDir, isSourceName_iff.mpr h.name,
      isVendorPath_eq_false_iff.mpr h.allowed⟩

/-! ### The files that are found -/

/-- Where paths are short enough, the files that are found are the source files below the root. -/
theorem mem_found_iff_isSource {w : Workspace} {c : Config} {root p : Path}
    (hinput : root.sameAs standardInput = false)
    (hshort : (root.join p).bytes.length < pathLimit) :
    p ∈ found w c root ↔
      ∃ dirs file, p = ofNames (dirs ++ [file]) ∧ IsSource w c root dirs file := by
  rw [mem_found_iff]
  constructor
  · rintro ⟨hallowed, -, names, hwalked, rfl⟩
    obtain ⟨dirs, file, rfl⟩ :=
      (List.eq_nil_or_concat' names).resolve_left (ne_nil_of_walked hwalked)
    exact ⟨dirs, file, rfl, (walked_iff_isSource hshort).mp ⟨hallowed, hwalked⟩⟩
  · rintro ⟨dirs, file, rfl, hsource⟩
    obtain ⟨hallowed, hwalked⟩ := (walked_iff_isSource hshort).mpr hsource
    exact ⟨hallowed, hinput, dirs ++ [file], hwalked, rfl⟩

/-- No file is found where the root is no directory or is the standard input. -/
theorem found_eq_nil {w : Workspace} {c : Config} {root : Path}
    (h : w.isDir root = false ∨ root.sameAs standardInput = true) : found w c root = [] := by
  refine List.eq_nil_iff_forall_not_mem.mpr fun p hp => ?_
  obtain ⟨-, hinput, names, hwalked, -⟩ := mem_found_iff.mp hp
  rcases h with hroot | hroot
  · obtain ⟨loc, hstat⟩ := stat_of_walked hwalked
    exact Workspace.stat_ne_directory hroot hstat
  · rw [hinput] at hroot
    cases hroot

/-- What is found under a root, without the walk.

1. Nothing is found where no directory is, and under a root that the walk takes for standard
   input.
2. The files are listed in strictly increasing order of their paths from the root, and each is
   read by this path behind the root.
3. Under any other root, a path that is short enough behind the root is found exactly if its
   names lead to a source file. -/
theorem discover_exact (w : Workspace) (c : Config) (root : Path) :
    (w.isDir root = false ∨ root.sameAs standardInput = true →
      (discover w c root).sourceFiles = []) ∧
    ((discover w c root).sourceFiles.Pairwise fun f g =>
      f.relative.compare g.relative = .lt) ∧
    (∀ f ∈ (discover w c root).sourceFiles, f.path = root.join f.relative) ∧
    (root.sameAs standardInput = false →
      ∀ p : Path, (root.join p).bytes.length < pathLimit →
        ((∃ f ∈ (discover w c root).sourceFiles, f.relative = p) ↔
          ∃ dirs file, p = ofNames (dirs ++ [file]) ∧ IsSource w c root dirs file)) := by
  refine ⟨?_, List.pairwise_map.mp (sorted_found w c root), ?_, ?_⟩
  · intro h
    rw [sourceFiles_eq, found_eq_nil h]
    rfl
  · intro f hf
    exact congrArg SourceFile.path (eq_under_of_mem hf)
  · intro hinput p hshort
    rw [← mem_found_iff_isSource hinput hshort, found, List.mem_map]

/-- An app with vendor directories of two names, with a file and a directory that are called
like each other, and with a link to a directory and one to nothing. -/
def prunedApp : Workspace :=
  let files := Workspace.ofFiles [("app/main.ts", ""), ("app/node_modules.ts", ""),
    ("app/lib/part.ts", ""), ("app/lib/node_modules/dep.ts", ""),
    ("app/old_node_modules/src/dep.ts", "")]
  { files with
    tree := (files.tree.place (Location.ofString "app/dir.ts") (.link (Path.ofString "lib"))).place
      (Location.ofString "app/gone.ts") (.link (Path.ofString "nowhere")) }

/-- The files that are found in such an app, and some that are not. -/
theorem discover_exact_prunedApp :
    (Path.ofString "app").sameAs standardInput = false ∧
    (∀ p ∈ ["gone.ts", "lib/part.ts", "main.ts", "node_modules.ts"].map Path.ofString,
      ((Path.ofString "app").join p).bytes.length < pathLimit ∧
        ∃ dirs file, p = ofNames (dirs ++ [file]) ∧
          IsSource prunedApp {} (Path.ofString "app") dirs file) ∧
    ∀ p ∈ ["dir.ts", "lib/node_modules/dep.ts", "old_node_modules/src/dep.ts"].map Path.ofString,
      ((Path.ofString "app").join p).bytes.length < pathLimit ∧
        ¬∃ dirs file, p = ofNames (dirs ++ [file]) ∧
          IsSource prunedApp {} (Path.ofString "app") dirs file := by
  have hinput : (Path.ofString "app").sameAs standardInput = false := by decide +kernel
  obtain ⟨-, -, -, hexact⟩ := discover_exact prunedApp {} (Path.ofString "app")
  refine ⟨hinput, ?_, ?_⟩
  · intro p hp
    have hfound : ∀ p ∈ ["gone.ts", "lib/part.ts", "main.ts", "node_modules.ts"].map Path.ofString,
        ((Path.ofString "app").join p).bytes.length < pathLimit ∧
          ∃ f ∈ (discover prunedApp {} (Path.ofString "app")).sourceFiles, f.relative = p := by
      decide +kernel
    obtain ⟨hshort, hrelative⟩ := hfound p hp
    exact ⟨hshort, (hexact hinput p hshort).mp hrelative⟩
  · intro p hp
    have hpruned : ∀ p ∈ ["dir.ts", "lib/node_modules/dep.ts", "old_node_modules/src/dep.ts"].map
          Path.ofString,
        ((Path.ofString "app").join p).bytes.length < pathLimit ∧
          ¬∃ f ∈ (discover prunedApp {} (Path.ofString "app")).sourceFiles, f.relative = p := by
      decide +kernel
    obtain ⟨hshort, hrelative⟩ := hpruned p hp
    exact ⟨hshort, fun h => hrelative ((hexact hinput p hshort).mpr h)⟩

/-- A directory of the name `-` is not looked into where it is written with a slash behind
it, although this is not the lone `-`, and although there is a source file in it. -/
theorem discover_dashedRoot :
    dashedRoot ≠ standardInput ∧ dashWorkspace.isDir dashedRoot = true ∧
      (∃ dirs file, (dashedRoot.join (ofNames (dirs ++ [file]))).bytes.length < pathLimit ∧
        IsSource dashWorkspace {} dashedRoot dirs file) ∧
      (discover dashWorkspace {} dashedRoot).sourceFiles = [] := by
  let file : Name := ⟨Utf8.encode "a.ts".toList, by decide +kernel⟩
  have hsource : IsSource dashWorkspace {} dashedRoot [] file := {
    entry := by
      refine ⟨[dashName], .file [], by decide +kernel, ?_, by decide +kernel, by decide +kernel⟩
      intro above habove
      rw [List.prefix_nil.mp habove]
      decide +kernel
    notDir := by decide +kernel
    name := ⟨".ts", by decide +kernel, by decide +kernel⟩
    allowed := Or.inr (by decide +kernel) }
  refine ⟨?_, ?_, ⟨[], file, ?_, hsource⟩, ?_⟩
  all_goals decide +kernel

end Unimported
