import Unimported.Proofs.Prefix
import Unimported.Proofs.Scan

/-!
# `Unimported.Proofs.CurrentDirectory`: one root, seen from two directories

A directory `n` can be scanned as `n` from the directory around it, and as `.` from
inside. This module compares the two scans up to the point where they ask what exists.
The statements:

* `found_inside`, `readText_inside`, `imports_inside_iff`: what is found, read and
  imported has nothing to do with the name of the root.
* `baseComponents_cases`: how the bases of one import differ in the two scans.
* `candidatePaths_name`, `candidatePaths_around`: the variants of an import differ by a
  prefix, which is the name of the root or the way out of it.
* `pathExists_name`, `pathExists_up`: variants that differ by such a prefix exist for
  both scans or for none.
-/

set_option autoImplicit false

namespace Unimported

open Unimported.Path

/-- The workspace whose current directory is the directory `n` in `above`. -/
def inside (t : FileTree) (n : Name) (above : Location) : Workspace := ⟨t, n :: above⟩

/-- The workspace whose current directory is the one around. -/
def outside (t : FileTree) (above : Location) : Workspace := ⟨t, above⟩

/-- The current directory as a root. -/
def here : Path := Path.ofString "."

/-- The directory around the current one. -/
def around : Path := Path.ofString ".."

/-- A slash is written behind a name. -/
theorem Name.takesSlash (n : Name) : n.path.TakesSlash := by
  refine ⟨fun h => n.ne_idle.1 (Or.inl h), fun h => ?_⟩
  exact n.slash_notMem (List.mem_of_getLast? h)

/-- A slash is written behind `.`. -/
theorem takesSlash_here : here.TakesSlash := by
  constructor <;> decide +kernel

/-- A slash is written behind `..`. -/
theorem takesSlash_around : around.TakesSlash := by
  constructor <;> decide +kernel

/-- A name is no longer than a directory entry can be. -/
theorem Name.length_le (n : Name) : n.bytes.length ≤ longestName := by
  have h := n.isEntryName
  simp only [Unimported.isEntryName, Bool.and_eq_true, decide_eq_true_eq] at h
  exact h.1.2

/-! ### Both roots are the same directory -/

section Roots

variable {t : FileTree} {n : Name} {above : Location}

/-- From inside, `.` is the directory. -/
theorem stat_here (hfree : t.LinkFree) (hdir : t.entryAt (n :: above) = some .directory) :
    (inside t n above).stat here = .ok (n :: above, .directory) := by
  rw [Workspace.stat_eq_ok_iff_advance hfree]
  refine ⟨by decide +kernel, by decide +kernel, by decide +kernel, ?_⟩
  have hsteps : here.steps = [.stay] := by decide +kernel
  have hstart : here.startFrom (n :: above) = n :: above := by
    rw [startFrom, if_neg (by decide +kernel)]
  show t.advance (here.startFrom (n :: above)) here.steps = _
  rw [hsteps, hstart]
  simp only [FileTree.advance, hdir]

/-- From the directory around, the name leads into the directory. -/
theorem advance_into (hdir : t.entryAt (n :: above) = some .directory) (more : List PathStep) :
    t.advance above (n.path.steps ++ more) = t.advance (n :: above) more := by
  rw [n.steps_path, List.singleton_append]
  simp only [FileTree.advance, FileTree.entryAt_above hdir, n.ofBytes?_bytes, hdir]

/-- From the directory, `..` leads out of it. -/
theorem advance_around (hdir : t.entryAt (n :: above) = some .directory)
    (more : List PathStep) :
    t.advance (n :: above) (around.steps ++ more) = t.advance above more := by
  have hsteps : around.steps = [.up] := by decide +kernel
  rw [hsteps, List.singleton_append]
  simp only [FileTree.advance, hdir, List.tail_cons]

/-- From the directory around, the name is the directory. -/
theorem stat_name (hfree : t.LinkFree) (hdir : t.entryAt (n :: above) = some .directory) :
    (outside t above).stat n.path = .ok (n :: above, .directory) := by
  have hlength := n.length_le
  have hlimit : longestName < pathLimit := by decide
  rw [Workspace.stat_eq_ok_iff_advance hfree]
  refine ⟨n.zero_notMem, Nat.lt_of_le_of_lt hlength hlimit, ?_, ?_⟩
  · intro hempty
    exact n.ne_idle.1 (Or.inl (congrArg Path.bytes hempty))
  · show t.advance (n.path.startFrom above) n.path.steps = _
    rw [startFrom, Workspace.isAbsolute_path]
    simp only [Bool.false_eq_true, if_false]
    rw [← List.append_nil n.path.steps, advance_into hdir]
    simp only [FileTree.advance, hdir]

end Roots

/-! ### Walks from the same directory -/

/-- A slash is written behind a path that ends in a name. -/
theorem takesSlash_join {r : Path} (hr : r.TakesSlash) (n : Name) :
    (r.join n.path).TakesSlash := by
  have hn := n.takesSlash
  rw [join_of_takesSlash hr (Workspace.isAbsolute_path n)]
  refine ⟨by simp, ?_⟩
  rw [← List.singleton_append, ← List.append_assoc, List.getLast?_append_of_ne_nil _ hn.1]
  exact hn.2

/-- A path is short enough if it is so with another path behind it. -/
theorem length_join_lt {r : Path} (hr : r.TakesSlash) {q : Path} (hq : q.isAbsolute = false)
    (hshort : (r.join q).bytes.length < pathLimit) : r.bytes.length < pathLimit := by
  rw [join_of_takesSlash hr hq] at hshort
  simp only [List.length_append] at hshort
  omega

/-- Two walks from the same directory come to the same files, whatever the directory is
called, as long as no path is too long. -/
theorem walked_of_walked {w w' : Workspace} {c : Config} (hfree : w.tree.LinkFree)
    (htree : w'.tree = w.tree) (hvendor : c.vendorDir = "") {names : List Name} :
    ∀ {dir dir' : Path} {loc : Location}, dir.TakesSlash → dir'.TakesSlash →
      w.stat dir = .ok (loc, .directory) → w'.stat dir' = .ok (loc, .directory) →
      (dir.join (ofNames names)).bytes.length < pathLimit →
      (dir'.join (ofNames names)).bytes.length < pathLimit →
      Walked w c dir names → Walked w' c dir' names := by
  have hallowed : ∀ p, c.isVendorPath p = false := by
    intro p
    simp [Config.isVendorPath, hvendor]
  induction names with
  | nil => exact fun _ _ _ _ _ _ h => h
  | cons name rest ih =>
    intro dir dir' loc hslash hslash' hdir hdir' hshort hshort' h
    have hentry : ∀ e, (name, e) ∈ w.list dir ↔ w.tree.entryAt (name :: loc) = some e := by
      intro e
      simp [Workspace.mem_list_iff, hdir]
    have hentry' : ∀ e, (name, e) ∈ w'.list dir' ↔ w.tree.entryAt (name :: loc) = some e := by
      intro e
      simp [Workspace.mem_list_iff, hdir', htree]
    cases rest with
    | nil =>
      rw [ofNames_singleton] at hshort hshort'
      obtain ⟨e, he, -, hnotDir, hsource⟩ := h
      -- The file itself is asked only whether it is a directory.
      have he := (hentry e).mp he
      have hlink : ∀ target, e ≠ .link target := by
        rintro target rfl
        cases hfree _ _ he
      have hstat := Workspace.stat_join hdir he hlink hshort
      have hstat' := Workspace.stat_join hdir' (by rw [htree]; exact he) hlink hshort'
      refine ⟨e, (hentry' e).mpr he, by simp [hallowed], ?_, hsource⟩
      rw [← hnotDir, Workspace.isDir, Workspace.isDir, hstat, hstat']
    | cons next rest =>
      -- Both walks go on from the same directory, which has a shorter path than the file.
      obtain ⟨hlist, -, hwalked⟩ := h
      rw [← join_join_names dir name (by simp)] at hshort
      rw [← join_join_names dir' name (by simp)] at hshort'
      have he := (hentry .directory).mp hlist
      have hnext := Workspace.stat_join hdir he (by simp)
        (length_join_lt (takesSlash_join hslash name) (isAbsolute_ofNames _) hshort)
      have hnext' := Workspace.stat_join hdir' (by rw [htree]; exact he) (by simp)
        (length_join_lt (takesSlash_join hslash' name) (isAbsolute_ofNames _) hshort')
      exact ⟨(hentry' _).mpr he, hallowed _,
        ih (takesSlash_join hslash name) (takesSlash_join hslash' name) hnext hnext' hshort hshort'
          hwalked⟩

/-! ### Bases of one import -/

/-- A base is worked off from the components of its root. -/
theorem baseComponents_eq {root dir specifier : Path} (hdir : dir.isAbsolute = false)
    (hspecifier : specifier.isAbsolute = false) :
    baseComponents root dir specifier
      = ((dir.normalComponents ++ specifier.normalComponents).foldl settle
          root.normalComponents.reverse).reverse := by
  rw [baseComponents, normalComponents_join _ _ hspecifier, normalComponents_join _ _ hdir,
    List.reverse_reverse, List.foldl_append]

/-- The normal form of `.` has no components. -/
theorem normalComponents_here : here.normalComponents = [] := by
  decide +kernel

/-- The normal form of a name is this name. -/
theorem normalComponents_name (n : Name) : n.path.normalComponents = [.name n.bytes] := by
  rw [← ofNames_singleton, ofNames, normalComponents_ofComponents (isNormal_ofNames [n])]
  rfl

/-- What an import names inside the root lies behind the name of the root when it is
seen from outside. What it names outside is one `..` shorter. -/
theorem baseComponents_cases (n : Name) {dir specifier : Path} (hdir : dir.isAbsolute = false)
    (hspecifier : specifier.isAbsolute = false) :
    (∃ names : List (List UInt8), baseComponents here dir specifier = names.map .name ∧
      baseComponents n.path dir specifier = .name n.bytes :: names.map .name) ∨
    ∃ rest, .root ∉ rest ∧ baseComponents here dir specifier = .up :: rest ∧
      baseComponents n.path dir specifier = rest := by
  have hnormal := isNormal_baseComponents here dir specifier
  have hroot : .root ∉ baseComponents here dir specifier := by
    refine root_notMem_normalComponents_iff.mpr ?_
    rw [isAbsolute_join _ _ hspecifier, isAbsolute_join _ _ hdir]
    decide +kernel
  -- From outside, the same components are settled on top of the name.
  have hname : baseComponents n.path dir specifier
      = ((baseComponents here dir specifier).foldl settle [.name n.bytes]).reverse := by
    rw [baseComponents_eq hdir hspecifier, baseComponents_eq hdir hspecifier,
      normalComponents_name, normalComponents_here, List.reverse_nil, foldl_settle_reverse,
      List.reverse_singleton]
  rw [hname]
  generalize baseComponents here dir specifier = base at hnormal hroot
  obtain ⟨names, hnames, rfl | ⟨ups, rfl⟩⟩ := id hnormal
  · simp at hroot
  · cases ups with
    | zero =>
      refine Or.inl ⟨names, rfl, ?_⟩
      rw [List.replicate_zero, List.nil_append, foldl_settle_names]
      simp
    | succ ups =>
      refine Or.inr ⟨List.replicate ups .up ++ names.map .name, ?_, rfl, ?_⟩
      · intro hmem
        exact hroot (List.mem_cons_of_mem _ hmem)
      · -- The first `..` takes the name back.
        have hrest : IsNormal (List.replicate ups Component.up ++ names.map .name) :=
          ⟨names, hnames, Or.inr ⟨ups, rfl⟩⟩
        rw [List.replicate_succ, List.cons_append, List.foldl_cons]
        show (List.foldl settle [] (List.replicate ups .up ++ names.map Component.name)).reverse = _
        rw [foldl_settle_isNormal hrest, List.reverse_reverse]

/-- The variants of a base that is neither empty nor absolute are neither themselves. -/
theorem isAbsolute_candidate {extensions : List String} {root dir specifier q : Path}
    (hne : baseComponents root dir specifier ≠ [])
    (hroot : .root ∉ baseComponents root dir specifier)
    (hq : q ∈ candidatePaths extensions root dir specifier) :
    q.isAbsolute = false ∧ q ≠ Path.empty := by
  have hrelative := isAbsolute_ofComponents (isNormal_baseComponents root dir specifier) hroot
  have hnotEmpty : ofComponents (baseComponents root dir specifier) ≠ Path.empty :=
    fun h => hne (importBase_eq_empty_iff.mp h)
  rw [mem_candidatePaths_iff, if_neg hne] at hq
  generalize ofComponents (baseComponents root dir specifier) = base at hrelative hnotEmpty hq
  rcases hq with rfl | ⟨e, -, rfl⟩ | ⟨e, -, rfl⟩
  · exact ⟨hrelative, hnotEmpty⟩
  · refine ⟨isAbsolute_bytes_append hnotEmpty hrelative _, fun h => ?_⟩
    have hbytes := congrArg Path.bytes h
    exact bytes_ne_nil hnotEmpty (List.append_eq_nil_iff.mp hbytes).1
  · refine ⟨by rw [isAbsolute_join _ _ (isAbsolute_indexFile e), hrelative], fun h => ?_⟩
    have hbytes := congrArg Path.bytes h
    rcases join_cases base (indexFile e) (isAbsolute_indexFile e) with
      ⟨hbase, -⟩ | ⟨front, -, hjoin⟩ | ⟨-, hjoin⟩
    · exact bytes_ne_nil hnotEmpty hbase
    · rw [hbytes] at hjoin
      simp [Path.empty] at hjoin
    · rw [hbytes] at hjoin
      simp [Path.empty] at hjoin

/-- The variants of an import inside the root, seen from outside. -/
theorem candidatePaths_name {extensions : List String} {n : Name} {dir specifier : Path}
    {names : List (List UInt8)} (hne : names ≠ [])
    (hhere : baseComponents here dir specifier = names.map .name)
    (hname : baseComponents n.path dir specifier = .name n.bytes :: names.map .name) :
    candidatePaths extensions n.path dir specifier
      = (candidatePaths extensions here dir specifier).map n.path.join := by
  have hcs : names.map Component.name ≠ [] := by simpa using hne
  have hroot : .root ∉ names.map Component.name := by simp
  have hnormal : IsNormal (names.map Component.name) :=
    hhere ▸ isNormal_baseComponents here dir specifier
  have hrelative := isAbsolute_ofComponents hnormal hroot
  refine candidatePaths_prefix n.takesSlash ?_ ?_ ?_
  · exact fun h => hcs (hhere ▸ importBase_eq_empty_iff.mp h)
  · rw [importBase_eq, hhere]
    exact hrelative
  · rw [importBase_eq, importBase_eq, hhere, hname, join_of_takesSlash n.takesSlash hrelative,
      ofComponents_cons (Or.inr ⟨n.bytes, n.isPlain, rfl⟩) hcs hroot]
    rfl

/-- The variants of an import outside the root, seen from inside. -/
theorem candidatePaths_around {extensions : List String} {n : Name} {dir specifier : Path}
    {rest : List Component} (hne : rest ≠ []) (hroot : .root ∉ rest)
    (hhere : baseComponents here dir specifier = .up :: rest)
    (hname : baseComponents n.path dir specifier = rest) :
    candidatePaths extensions here dir specifier
      = (candidatePaths extensions n.path dir specifier).map around.join := by
  have hnormal : IsNormal rest := hname ▸ isNormal_baseComponents n.path dir specifier
  have hrelative := isAbsolute_ofComponents hnormal hroot
  refine candidatePaths_prefix takesSlash_around ?_ ?_ ?_
  · exact fun h => hne (hname ▸ importBase_eq_empty_iff.mp h)
  · rw [importBase_eq, hname]
    exact hrelative
  · rw [importBase_eq, importBase_eq, hhere, hname, join_of_takesSlash takesSlash_around hrelative,
      ofComponents_cons (Or.inl rfl) hne hroot]
    rfl

/-! ### The two scans -/

/-- Whether no path is too long that one of the two scans asks for. -/
structure ShortPaths (t : FileTree) (n : Name) (above : Location) (c : Config) : Prop where
  /-- The paths of the files that one of the scans finds. -/
  files : ∀ p, p ∈ found (inside t n above) c here ∨ p ∈ found (outside t above) c n.path →
    (n.path.join p).bytes.length < pathLimit
  /-- The variants of the imports, as each of the scans tries them. -/
  variants : ∀ f s, Imports (inside t n above) c here f s → ∀ q,
    q ∈ candidatePaths c.extensions here f.directory (Path.ofChars s) ∨
      q ∈ candidatePaths c.extensions n.path f.directory (Path.ofChars s) →
    q.bytes.length < pathLimit

/-- What the two scans have in common, so that they can be compared. -/
structure SameRoot (t : FileTree) (n : Name) (above : Location) (c : Config) : Prop where
  /-- No entry is a link. -/
  linkFree : t.LinkFree
  /-- The root is a directory. -/
  directory : t.entryAt (n :: above) = some .directory
  /-- No directory is left out as a vendor directory. -/
  noVendor : c.vendorDir = ""
  /-- The name of the root does not stand for the standard input. -/
  notInput : n.path ≠ standardInput
  /-- No path is too long. -/
  short : ShortPaths t n above c

section Scans

variable {t : FileTree} {n : Name} {above : Location} {c : Config}

/-- No name is shorter than `.`. -/
theorem length_join_here {p : Path} (hp : p.isAbsolute = false)
    (hshort : (n.path.join p).bytes.length < pathLimit) :
    (here.join p).bytes.length < pathLimit := by
  rw [join_of_takesSlash n.takesSlash hp] at hshort
  rw [join_of_takesSlash takesSlash_here hp]
  have hone : here.bytes.length = 1 := by decide +kernel
  have hpos : 0 < n.path.bytes.length := List.length_pos_iff.mpr n.takesSlash.1
  simp only [List.length_append] at hshort ⊢
  omega

/-- What is found has nothing to do with the name of the root. -/
theorem found_inside (hscans : SameRoot t n above c) :
    found (inside t n above) c here = found (outside t above) c n.path := by
  have hallowed : ∀ p, c.isVendorPath p = false := by
    intro p
    simp [Config.isVendorPath, hscans.noVendor]
  have hhere : here.sameAs standardInput = false := by decide +kernel
  -- The name is not the one that stands for the standard input, under any spelling.
  have hname : n.path.sameAs standardInput = false := by
    by_contra hsame
    have hcomponents := sameAs_iff.mp (by simpa using hsame)
    have hpath : n.path.components = [.name n.bytes] := by
      rw [← ofNames_singleton, components_ofNames]
      rfl
    have hdash : standardInput.components = [.name standardInput.bytes] := by decide +kernel
    rw [hpath, hdash] at hcomponents
    have hbytes : n.bytes = standardInput.bytes := by simpa using hcomponents
    exact hscans.notInput (eq_of_bytes_eq hbytes)
  have htree : (outside t above).tree = (inside t n above).tree := rfl
  have hinside := stat_here hscans.linkFree hscans.directory
  have houtside := stat_name hscans.linkFree hscans.directory
  refine eq_of_mem_iff (sorted_found _ _ _) (sorted_found _ _ _) fun p => ?_
  constructor
  · intro hp
    have hlimit := hscans.short.files p (Or.inl hp)
    obtain ⟨-, -, names, hwalked, rfl⟩ := mem_found_iff.mp hp
    refine mem_found_iff.mpr ⟨hallowed _, hname, names, ?_, rfl⟩
    exact walked_of_walked hscans.linkFree htree hscans.noVendor takesSlash_here n.takesSlash
      hinside houtside (length_join_here (isAbsolute_ofNames names) hlimit) hlimit hwalked
  · intro hp
    have hlimit := hscans.short.files p (Or.inr hp)
    obtain ⟨-, -, names, hwalked, rfl⟩ := mem_found_iff.mp hp
    refine mem_found_iff.mpr ⟨hallowed _, hhere, names, ?_, rfl⟩
    exact walked_of_walked hscans.linkFree htree.symm hscans.noVendor n.takesSlash takesSlash_here
      houtside hinside hlimit (length_join_here (isAbsolute_ofNames names) hlimit) hwalked

/-- A file has the same contents under both of its paths. -/
theorem readText_inside (hscans : SameRoot t n above c) {p : Path}
    (hp : p ∈ found (inside t n above) c here) :
    (inside t n above).readText (here.join p) = (outside t above).readText (n.path.join p) := by
  have hlimit := hscans.short.files p (Or.inl hp)
  obtain ⟨-, -, names, hwalked, rfl⟩ := mem_found_iff.mp hp
  have hne := ne_nil_of_walked hwalked
  have hhere := stat_here hscans.linkFree hscans.directory
  have hname := stat_name hscans.linkFree hscans.directory
  obtain ⟨e, he⟩ := entryAt_of_walked hwalked hhere
  have hinside := stat_join_names hscans.linkFree hhere hne he
    (length_join_here (isAbsolute_ofNames names) hlimit)
  have houtside := stat_join_names hscans.linkFree hname hne he hlimit
  -- Both paths lead to the same entry, and reading asks for nothing else.
  simp only [Workspace.readText, Workspace.read, hinside, houtside]

/-- Both scans have the same imports. -/
theorem imports_inside_iff (hscans : SameRoot t n above c) {p : Path} {s : List Char} :
    Imports (inside t n above) c here (SourceFile.under here p) s ↔
      Imports (outside t above) c n.path (SourceFile.under n.path p) s := by
  have hfound := found_inside hscans
  unfold Imports
  rw [under_mem_sourceFiles_iff, under_mem_sourceFiles_iff, ← hfound]
  refine and_congr_right fun hp => ?_
  have hread := readText_inside hscans hp
  simp only [SourceFile.under, hread]

/-- From inside, the directory around is `..`, which is there. -/
theorem pathExists_around (hfree : t.LinkFree)
    (hdir : t.entryAt (n :: above) = some .directory) :
    (inside t n above).pathExists around = true := by
  refine Workspace.pathExists_iff.mpr ⟨above, .directory, ?_⟩
  rw [Workspace.stat_eq_ok_iff_advance hfree]
  refine ⟨by decide +kernel, by decide +kernel, by decide +kernel, ?_⟩
  have hstart : around.startFrom (n :: above) = n :: above := by
    rw [startFrom, if_neg (by decide +kernel)]
  show t.advance (around.startFrom (n :: above)) around.steps = _
  rw [hstart, ← List.append_nil around.steps, advance_around hdir]
  simp only [FileTree.advance, FileTree.entryAt_above hdir]

/-- A reference to something inside the root, and not to the root itself: its variants
have the same targets in both scans. -/
theorem pathExists_name (hscans : SameRoot t n above c) {f : SourceFile} {s : List Char}
    (himports : Imports (inside t n above) c here f s) {names : List (List UInt8)}
    (hne : names ≠ [])
    (hhere : baseComponents here f.directory (Path.ofChars s) = names.map .name)
    (hname : baseComponents n.path f.directory (Path.ofChars s)
      = .name n.bytes :: names.map .name)
    {q : Path} (hq : q ∈ candidatePaths c.extensions here f.directory (Path.ofChars s)) :
    (outside t above).pathExists (n.path.join q) = (inside t n above).pathExists q := by
  obtain ⟨hrelative, hempty⟩ := isAbsolute_candidate (by simpa [hhere] using hne)
    (by simp [hhere]) hq
  have hmem : n.path.join q
      ∈ candidatePaths c.extensions n.path f.directory (Path.ofChars s) := by
    rw [candidatePaths_name hne hhere hname]
    exact List.mem_map_of_mem hq
  exact pathExists_prefix hscans.linkFree n.takesSlash (Workspace.isAbsolute_path n) n.zero_notMem
    (advance_into hscans.directory) hrelative hempty
    (hscans.short.variants f s himports _ (Or.inr hmem))

/-- A reference to something outside the root, and not to the directory around. -/
theorem pathExists_up (hscans : SameRoot t n above c) {f : SourceFile} {s : List Char}
    (himports : Imports (inside t n above) c here f s) {rest : List Component}
    (hne : rest ≠ []) (hroot : .root ∉ rest)
    (hhere : baseComponents here f.directory (Path.ofChars s) = .up :: rest)
    (hname : baseComponents n.path f.directory (Path.ofChars s) = rest)
    {q : Path} (hq : q ∈ candidatePaths c.extensions n.path f.directory (Path.ofChars s)) :
    (inside t n above).pathExists (around.join q) = (outside t above).pathExists q := by
  obtain ⟨hrelative, hempty⟩ := isAbsolute_candidate (by rwa [hname]) (by rwa [hname]) hq
  have hmem : around.join q ∈ candidatePaths c.extensions here f.directory (Path.ofChars s) := by
    rw [candidatePaths_around hne hroot hhere hname]
    exact List.mem_map_of_mem hq
  exact pathExists_prefix hscans.linkFree takesSlash_around (by decide +kernel) (by decide +kernel)
    (advance_around hscans.directory) hrelative hempty
    (hscans.short.variants f s himports _ (Or.inl hmem))

end Scans

end Unimported
