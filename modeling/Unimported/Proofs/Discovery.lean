import Unimported.Discovery
import Unimported.Proofs.FileTree.NormalForm
import Unimported.Proofs.Path.Set
import Unimported.Proofs.Path.Spelling

/-!
# `Unimported.Proofs.Discovery`: what a walk finds

A walk prunes whole directories as it goes. `Walked` says which files it comes to by the
names on the way, without the order of the walk and without its fuel. The statements:

* `stat_join_below`: the path of an entry below a directory leads to this entry, as long
  as it is short enough.
* `mem_walk_iff`: a walk collects exactly the files that it comes to.
* `length_of_walked`: the depth of the tree is fuel enough.
* `mem_found_iff`: the source files under a root, each under the one spelling with
  single slashes; `sorted_found` has their order.
-/

set_option autoImplicit false

namespace Unimported

open Unimported.Path

/-! ### Paths made of names -/

/-- The name of a directory entry is a plain name. -/
theorem Name.isPlain (n : Name) : IsPlain n.bytes :=
  ⟨fun h => n.ne_idle.1 (Or.inl h), fun h => n.ne_idle.1 (Or.inr h), n.ne_idle.2, n.slash_notMem⟩

/-- The names as components. -/
def nameComponents (names : List Name) : List Component :=
  (names.map Name.bytes).map .name

/-- The path of these names, with single slashes between them. -/
def ofNames (names : List Name) : Path :=
  ofComponents (nameComponents names)

/-- The bytes of names are plain names. -/
theorem isPlain_of_mem_names {names : List Name} :
    ∀ bytes ∈ names.map Name.bytes, IsPlain bytes := by
  intro bytes hbytes
  obtain ⟨n, -, rfl⟩ := List.mem_map.mp hbytes
  exact n.isPlain

/-- The path that names make has these names as its components. -/
theorem components_ofNames (names : List Name) :
    (ofNames names).components = nameComponents names :=
  components_ofComponents (isNormal_names isPlain_of_mem_names)

/-- The path that names make is in normal form. -/
theorem isNormal_ofNames (names : List Name) : IsNormal (nameComponents names) :=
  isNormal_names isPlain_of_mem_names

/-- Names are told by their components. -/
theorem nameComponents_injective : Function.Injective nameComponents := by
  intro ms ns h
  have hbytes : ms.map Name.bytes = ns.map Name.bytes :=
    List.map_injective_iff.mpr (fun _ _ => Component.name.inj) h
  exact List.map_injective_iff.mpr Name.bytes_injective hbytes

/-- Joining a name to a path in normal form adds one component. -/
theorem join_name {cs : List Component} (h : IsNormal cs) (n : Name) :
    (ofComponents cs).join n.path = ofComponents (cs ++ [.name n.bytes]) := by
  have hjoin := join_ofComponents h (List.cons_ne_nil n.bytes []) (by simpa using n.isPlain)
  rw [List.map_singleton, ofComponents_name] at hjoin
  exact hjoin

/-- Names joined one by one to a normal form. -/
theorem foldl_join {names : List Name} :
    ∀ {cs : List Component}, IsNormal cs →
      names.foldl (fun p n => p.join n.path) (ofComponents cs)
        = ofComponents (cs ++ nameComponents names) := by
  induction names with
  | nil => intro cs _; simp [nameComponents]
  | cons n names ih =>
    intro cs h
    rw [List.foldl_cons, join_name h, ih (isNormal_append_name h n.isPlain)]
    simp [nameComponents]

/-- The path that names make has them between slashes. -/
theorem bytes_ofNames (names : List Name) :
    (ofNames names).bytes = [slash].intercalate ((nameComponents names).map Component.bytes) := by
  -- No name is the root, so that there is no slash in front.
  cases names <;> rfl

/-- The path that names make is relative. -/
theorem isAbsolute_ofNames (names : List Name) : (ofNames names).isAbsolute = false :=
  isAbsolute_names isPlain_of_mem_names

/-- The path that names make has no zero byte, so it can be asked for. -/
theorem zero_notMem_ofNames (names : List Name) : (0 : UInt8) ∉ (ofNames names).bytes := by
  rw [bytes_ofNames]
  induction names with
  | nil => simp [nameComponents]
  | cons n names ih =>
    have hn := n.zero_notMem
    cases names with
    | nil => simpa [nameComponents, Component.bytes] using hn
    | cons m names =>
      have hslash : (0 : UInt8) ≠ slash := by decide
      simp only [nameComponents, List.map_cons, List.intercalate_cons_cons, List.mem_append,
        List.mem_singleton, not_or] at ih ⊢
      exact ⟨⟨hn, hslash⟩, ih⟩

/-- A name can stand between two slashes. -/
theorem isInner_of_mem_names {names : List Name} : ∀ c ∈ nameComponents names, c.IsInner := by
  intro c hc
  obtain ⟨bytes, hbytes, rfl⟩ := List.mem_map.mp hc
  exact Or.inr ⟨bytes, isPlain_of_mem_names bytes hbytes, rfl⟩

/-- The path that names make is cut at its slashes into these names. -/
theorem segments_ofNames {names : List Name} (hne : names ≠ []) :
    (ofNames names).segments = names.map Name.bytes := by
  have hcs : nameComponents names ≠ [] := by simpa [nameComponents] using hne
  rw [segments, bytes_ofNames, splitOn_bytes hcs isInner_of_mem_names, nameComponents,
    List.map_map]
  exact List.map_id _

/-- A path made of names goes into one after the other. -/
theorem steps_ofNames {names : List Name} (hne : names ≠ []) :
    (ofNames names).steps = names.map fun n => .into n.bytes := by
  have hcs : nameComponents names ≠ [] := by simpa [nameComponents] using hne
  have hwrite : ofNames names
      = ⟨[slash].intercalate ((nameComponents names).map Component.bytes)⟩ :=
    eq_of_bytes_eq (bytes_ofNames names)
  rw [hwrite, steps_intercalate hcs isInner_of_mem_names, nameComponents, List.map_map,
    List.map_map]
  rfl

/-- The path of one name. -/
theorem ofNames_singleton (n : Name) : ofNames [n] = n.path :=
  ofComponents_name n.bytes

/-- Going into a directory and on from there is going on all the way. -/
theorem join_join_names (dir : Path) (n : Name) {names : List Name} (hne : names ≠ []) :
    (dir.join n.path).join (ofNames names) = dir.join (ofNames (n :: names)) := by
  have hname : n.bytes ≠ [] ∧ n.bytes.getLast? ≠ some slash :=
    ⟨fun h => n.ne_idle.1 (Or.inl h), fun h => n.slash_notMem (List.mem_of_getLast? h)⟩
  have hnames : (ofNames (n :: names)).bytes = n.bytes ++ slash :: (ofNames names).bytes := by
    obtain ⟨m, names, rfl⟩ := List.exists_cons_of_ne_nil hne
    rw [bytes_ofNames, bytes_ofNames]
    simp [nameComponents, Component.bytes]
  -- A slash comes before the name or not, and always before the other names.
  have hjoin : ∀ front : List UInt8, (⟨front ++ n.bytes⟩ : Path).join (ofNames names)
      = ⟨front ++ (ofNames (n :: names)).bytes⟩ := by
    intro front
    rw [join, if_neg (by simp [isAbsolute_ofNames]), if_neg, hnames, List.append_assoc]
    simp only [List.append_eq_nil_iff, List.getLast?_append_of_ne_nil _ hname.1]
    exact not_or.mpr ⟨fun h => hname.1 h.2, hname.2⟩
  have hdir : ∀ q : Path, q.isAbsolute = false → dir.join q
      = if dir.bytes = [] ∨ dir.bytes.getLast? = some slash then ⟨dir.bytes ++ q.bytes⟩
        else ⟨dir.bytes ++ slash :: q.bytes⟩ :=
    fun q hq => by rw [join, if_neg (by simp [hq])]
  rw [hdir _ (Workspace.isAbsolute_path n), hdir _ (isAbsolute_ofNames _)]
  split
  · exact hjoin dir.bytes
  · have hslash := hjoin (dir.bytes ++ [slash])
    rwa [List.append_assoc, List.append_assoc] at hslash

/-- The path of an entry below a directory leads to this entry, unless this is a link. -/
theorem stat_join_below {w : Workspace} {dir : Path} {loc : Location} {names : List Name}
    {e : Entry} (hdir : w.stat dir = .ok (loc, .directory)) (hne : names ≠ [])
    (he : w.tree.entryAt (names.reverse ++ loc) = some e) (hlink : e.isLink = false)
    (hlimit : (dir.join (ofNames names)).bytes.length < pathLimit) :
    w.stat (dir.join (ofNames names)) = .ok (names.reverse ++ loc, e) := by
  have hadvance : w.tree.advance loc (ofNames names).steps
      = .ended (.found (names.reverse ++ loc) e) := by
    rw [steps_ofNames hne]
    exact FileTree.advance_names he hlink
  exact Workspace.stat_join_of_advance hdir (isAbsolute_ofNames names) (zero_notMem_ofNames names)
    hadvance hlimit

/-- In a tree without links, names behind the path of a directory name the entry that they lead
to, if the path is not too long. -/
theorem stat_join_names {w : Workspace} (hfree : w.tree.LinkFree) {dir : Path} {loc : Location}
    {names : List Name} {e : Entry} (hdir : w.stat dir = .ok (loc, .directory))
    (hne : names ≠ []) (he : w.tree.entryAt (names.reverse ++ loc) = some e)
    (hlimit : (dir.join (ofNames names)).bytes.length < pathLimit) :
    w.stat (dir.join (ofNames names)) = .ok (names.reverse ++ loc, e) :=
  stat_join_below hdir hne he (hfree _ _ he) hlimit

/-! ### The files a walk comes to -/

/-- Whether a walk that stands in the directory `dir` comes to a source file by these
names: through directories that are no vendor paths, to an entry that is no directory
and has the name of a source file. -/
def Walked (w : Workspace) (c : Config) : Path → List Name → Prop
  | _, [] => False
  | dir, [file] => ∃ entry, (file, entry) ∈ w.list dir ∧
      ¬(entry = .directory ∧ c.isVendorPath (dir.join file.path) = true) ∧
      w.isDir (dir.join file.path) = false ∧ c.isSourceName file.path.chars = true
  | dir, name :: next :: rest => (name, .directory) ∈ w.list dir ∧
      c.isVendorPath (dir.join name.path) = false ∧
      Walked w c (dir.join name.path) (next :: rest)

/-- A file that a walk comes to has a name of its own below the directory. -/
theorem ne_nil_of_walked {w : Workspace} {c : Config} {dir : Path} {names : List Name}
    (h : Walked w c dir names) : names ≠ [] := by
  rintro rfl
  exact h

/-- A walk collects the files that it comes to, as far as its fuel lasts. -/
theorem mem_walk_iff {w : Workspace} {c : Config} (fuel : Nat) {dir relative p : Path} :
    p ∈ walk w c fuel dir relative ↔ ∃ names, names.length ≤ fuel ∧ Walked w c dir names ∧
      p = names.foldl (fun q n => q.join n.path) relative := by
  induction fuel generalizing dir relative with
  | zero =>
    simp only [walk, List.not_mem_nil, Nat.le_zero, List.length_eq_zero_iff, false_iff]
    rintro ⟨names, rfl, hwalked, -⟩
    exact hwalked
  | succ fuel ih =>
    rw [walk, List.mem_flatMap]
    constructor
    · rintro ⟨⟨name, entry⟩, hlist, hp⟩
      simp only at hp
      split at hp
      · simp at hp
      · rename_i hvendor
        simp only [Bool.and_eq_true, decide_eq_true_eq] at hvendor
        -- The entry itself is collected at the end of a walk of one name.
        have hown : p ∈ (if (!w.isDir (dir.join name.path) && c.isSourceName name.path.chars) = true
            then [relative.join name.path] else []) →
            ∃ names, names.length ≤ fuel + 1 ∧ Walked w c dir names ∧
              p = names.foldl (fun q n => q.join n.path) relative := by
          intro hown
          split at hown
          · rename_i hsource
            simp only [Bool.and_eq_true, Bool.not_eq_true'] at hsource
            exact ⟨[name], by simp, ⟨entry, hlist, hvendor, hsource⟩, by simpa using hown⟩
          · simp at hown
        cases entry with
        | directory =>
          -- A path that is too long to be a directory is collected as well.
          rcases List.mem_append.mp hp with hp | hp
          · exact hown hp
          · obtain ⟨names, hlength, hwalked, rfl⟩ := ih.mp hp
            cases names with
            | nil => exact absurd hwalked id
            | cons next rest =>
              exact ⟨name :: next :: rest, by simpa using hlength,
                ⟨hlist, by simpa using hvendor, hwalked⟩, rfl⟩
        | file contents => exact hown hp
        | link target => exact hown hp
    · rintro ⟨names, hlength, hwalked, rfl⟩
      match names, hlength, hwalked with
      | [name], _, ⟨entry, hlist, hvendor, hnotDir, hsource⟩ =>
        refine ⟨(name, entry), hlist, ?_⟩
        have hown : relative.join name.path
            ∈ (if (!w.isDir (dir.join name.path) && c.isSourceName name.path.chars) = true
              then [relative.join name.path] else []) := by
          rw [if_pos (by simp [hnotDir, hsource])]
          exact List.mem_singleton_self _
        simp only [List.foldl_cons, List.foldl_nil]
        rw [if_neg (by simpa using hvendor)]
        cases entry with
        | directory => exact List.mem_append_left _ hown
        | file contents => exact hown
        | link target => exact hown
      | name :: next :: rest, hlength, ⟨hlist, hvendor, hwalked⟩ =>
        refine ⟨(name, .directory), hlist, ?_⟩
        simp only [List.foldl_cons]
        rw [if_neg (by simp [hvendor])]
        refine List.mem_append_right _ (ih.mpr ⟨next :: rest, ?_, hwalked, rfl⟩)
        simpa using hlength

/-- The directory from which a walk goes on is there. -/
theorem stat_of_walked {w : Workspace} {c : Config} {dir : Path} {names : List Name}
    (h : Walked w c dir names) : ∃ loc, w.stat dir = .ok (loc, .directory) := by
  match names, h with
  | [name], ⟨entry, hlist, _⟩ =>
    obtain ⟨loc, hloc, -⟩ := Workspace.mem_list_iff.mp hlist
    exact ⟨loc, hloc⟩
  | name :: next :: rest, ⟨hlist, _⟩ =>
    obtain ⟨loc, hloc, -⟩ := Workspace.mem_list_iff.mp hlist
    exact ⟨loc, hloc⟩

/-- A path that names a directory is short enough. -/
theorem length_lt_of_stat {w : Workspace} {p : Path} {r : Location × Entry}
    (h : w.stat p = .ok r) : p.bytes.length < pathLimit :=
  (Workspace.locate_eq_ok_iff.mp (Workspace.stat_eq_ok_iff.mp h)).2.1

/-- A directory in a directory stands below it, if its path is short enough to name
anything. -/
theorem stat_of_mem_list {w : Workspace} {dir : Path} {loc : Location} {name : Name}
    {r : Location × Entry} (hdir : w.stat dir = .ok (loc, .directory))
    (hlist : (name, .directory) ∈ w.list dir) (hnamed : w.stat (dir.join name.path) = .ok r) :
    w.stat (dir.join name.path) = .ok (name :: loc, .directory) := by
  have he := (Workspace.mem_list_iff_entryAt hdir).mp hlist
  exact Workspace.stat_join hdir he (by simp) (length_lt_of_stat hnamed)

/-- The entry at the end of a walk stands where its names lead. -/
theorem entryAt_of_walked {w : Workspace} {c : Config} {names : List Name} :
    ∀ {dir : Path} {loc : Location}, Walked w c dir names →
      w.stat dir = .ok (loc, .directory) →
      ∃ e, w.tree.entryAt (names.reverse ++ loc) = some e := by
  induction names with
  | nil => intro dir loc h _; exact absurd h id
  | cons name rest ih =>
    intro dir loc h hdir
    cases rest with
    | nil =>
      obtain ⟨entry, hlist, -⟩ := h
      exact ⟨entry, (Workspace.mem_list_iff_entryAt hdir).mp hlist⟩
    | cons next rest =>
      -- The walk goes on from a directory that can be named, one name further down.
      obtain ⟨hlist, -, hwalked⟩ := h
      obtain ⟨below, hbelow⟩ := stat_of_walked hwalked
      have hstat := stat_of_mem_list hdir hlist hbelow
      simpa using ih hwalked hstat

/-- A walk comes to no file deeper than the tree is. -/
theorem length_of_walked {w : Workspace} {c : Config} {dir : Path} {names : List Name}
    (h : Walked w c dir names) : names.length ≤ w.tree.depth := by
  obtain ⟨loc, hloc⟩ := stat_of_walked h
  obtain ⟨e, he⟩ := entryAt_of_walked h hloc
  have hdepth := FileTree.length_le_depth he
  simp only [List.length_append, List.length_reverse] at hdepth
  omega

/-! ### The files under a root -/

/-- The source files under a root, as paths from there. -/
def found (w : Workspace) (c : Config) (root : Path) : List Path :=
  (discover w c root).sourceFiles.map (·.relative)

/-- The walk from the root lists the files that it comes to, and the depth of the tree is fuel
enough for it. -/
theorem mem_walk_root_iff {w : Workspace} {c : Config} {root p : Path} :
    p ∈ walk w c (w.tree.depth + 1) root Path.empty ↔
      ∃ names, Walked w c root names ∧ p = ofNames names := by
  rw [mem_walk_iff]
  have hspell : ∀ names : List Name,
      names.foldl (fun q n => q.join n.path) Path.empty = ofNames names := by
    intro names
    exact foldl_join (isNormal_ofNames [])
  constructor
  · rintro ⟨names, -, hwalked, rfl⟩
    exact ⟨names, hwalked, hspell names⟩
  · rintro ⟨names, hwalked, rfl⟩
    have hlength := length_of_walked hwalked
    exact ⟨names, by omega, hwalked, (hspell names).symm⟩

/-- The source files of a walk, each of them once and in order. -/
theorem mem_toList_walk_iff {w : Workspace} {c : Config} {root p : Path} :
    p ∈ (PathSet.ofList (walk w c (w.tree.depth + 1) root Path.empty)).toList ↔
      ∃ names, Walked w c root names ∧ p = ofNames names := by
  rw [PathSet.mem_toList_ofList, mem_walk_root_iff]
  -- A walk spells the names of a file in one way only.
  intro p hp q hq hpq
  obtain ⟨ms, -, rfl⟩ := mem_walk_root_iff.mp hp
  obtain ⟨ns, -, rfl⟩ := mem_walk_root_iff.mp hq
  rw [components_ofNames, components_ofNames] at hpq
  rw [nameComponents_injective hpq]

/-- The files that are found are those that the walk comes to, unless the root is left out as a
whole. -/
theorem mem_found_iff {w : Workspace} {c : Config} {root p : Path} :
    p ∈ found w c root ↔ c.isVendorPath root = false ∧ root.sameAs standardInput = false ∧
      ∃ names, Walked w c root names ∧ p = ofNames names := by
  unfold found discover
  split
  · -- No walk starts where no directory is.
    rename_i hdir
    simp only [Discovery.sourceFiles, List.map_nil, List.not_mem_nil, false_iff]
    rintro ⟨-, -, names, hwalked, -⟩
    have hisDir := Workspace.isDir_iff.mpr (stat_of_walked hwalked)
    simp [hisDir] at hdir
  · split
    · rename_i hvendor
      simp [Discovery.sourceFiles, hvendor]
    · rename_i hvendor
      split
      · rename_i hinput
        simp [Discovery.sourceFiles, hinput]
      · rename_i hinput
        have hmap : ∀ ps : List Path,
            (ps.map (SourceFile.under root)).map (fun f => f.relative) = ps := by
          intro ps
          rw [List.map_map]
          exact List.map_id ps
        simp only [Discovery.sourceFiles, hmap, mem_toList_walk_iff]
        simp [hvendor, hinput]

/-- What is found has a name. -/
theorem components_ne_nil_of_found {w : Workspace} {c : Config} {root p : Path}
    (h : p ∈ found w c root) : p.components ≠ [] := by
  obtain ⟨-, -, names, hwalked, rfl⟩ := mem_found_iff.mp h
  rw [components_ofNames]
  simpa [nameComponents] using ne_nil_of_walked hwalked

/-- The files that are found stand in the order of paths, each once. -/
theorem sorted_found (w : Workspace) (c : Config) (root : Path) :
    (found w c root).Pairwise fun p q => p.compare q = .lt := by
  unfold found discover
  split
  · simp [Discovery.sourceFiles]
  · split
    · simp [Discovery.sourceFiles]
    · split
      · simp [Discovery.sourceFiles]
      · simp only [Discovery.sourceFiles, List.map_map]
        exact (List.map_id _).symm ▸ PathSet.sorted_toList _

/-- A source file is read by its path behind the root. -/
theorem eq_under_of_mem {w : Workspace} {c : Config} {root : Path} {f : SourceFile}
    (h : f ∈ (discover w c root).sourceFiles) : f = SourceFile.under root f.relative := by
  unfold discover at h
  split at h
  · simp [Discovery.sourceFiles] at h
  · split at h
    · simp [Discovery.sourceFiles] at h
    · split at h
      · simp [Discovery.sourceFiles] at h
      · obtain ⟨p, -, rfl⟩ := List.mem_map.mp h
        rfl

/-- The source files are determined by their paths from the root. -/
theorem sourceFiles_eq (w : Workspace) (c : Config) (root : Path) :
    (discover w c root).sourceFiles = (found w c root).map (SourceFile.under root) := by
  rw [found, List.map_map]
  exact (List.map_congr_left fun f hf => (eq_under_of_mem hf).symm).symm ▸ (List.map_id _).symm

/-- The source files of a scan are the files that are found. -/
theorem under_mem_sourceFiles_iff {w : Workspace} {c : Config} {root p : Path} :
    SourceFile.under root p ∈ (discover w c root).sourceFiles ↔ p ∈ found w c root := by
  rw [sourceFiles_eq]
  constructor
  · intro h
    obtain ⟨q, hq, heq⟩ := List.mem_map.mp h
    have hrelative : q = p := congrArg SourceFile.relative heq
    rwa [← hrelative]
  · exact List.mem_map_of_mem

end Unimported
