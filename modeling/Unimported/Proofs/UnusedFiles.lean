import Unimported.Proofs.Candidate
import Unimported.Proofs.Scan

/-!
# `Unimported.Proofs.UnusedFiles`: the exact meaning of a report

Which files a scan reports, said without the steps of the scan. An import names a list
`b` of names behind the root, or it leaves the root; `Denotes` says which files under
the root `b` may mean. The statements:

* `normalComponents_candidate`: seen from the root, a variant of a reference has the
  components that `Denotes` allows, unless it is the root or a `..` with an extension.
* `mem_candidatePaths_of_denotes`: every file that `Denotes` allows is probed, by the
  path that the normal form of the root gives it.
* `unusedFiles_exact`: a scan reports exactly the files that are no entry points and
  that are denoted by no import of a readable file.
-/

set_option autoImplicit false

namespace Unimported

open Unimported.Path

/-- Whether names `b` behind the root may mean the file with the names `x`: the file
itself, the file without its extension, or the directory of an index file. -/
def Denotes (extensions : List String) (b x : List (List UInt8)) : Prop :=
  x = b ∨
    (∃ above name, b = above ++ [name] ∧
      ∃ e ∈ extensions, x = above ++ [name ++ Utf8.encode e.toList]) ∨
    ∃ e ∈ extensions, x = b ++ [indexName e]

/-- Whether a file has the name that an extension gives to a base without a last name:
the extension itself, or `..` and the extension. -/
def IsNamedByExtension (extensions : List String) (p : Path) : Prop :=
  ∃ e ∈ extensions, p.fileName? = some (Utf8.encode e.toList) ∨
    p.fileName? = some (Component.up.bytes ++ Utf8.encode e.toList)

instance (extensions : List String) (p : Path) : Decidable (IsNamedByExtension extensions p) :=
  inferInstanceAs (Decidable (∃ e ∈ extensions, _))

/-- The name of a file is its last component. -/
theorem fileName?_of_components {p : Path} {cs : List Component} {name : List UInt8}
    (h : p.components = cs ++ [.name name]) : p.fileName? = some name := by
  simp [fileName?, h]

/-- A list of components that ends in a name, cut into a first part and names, where
the names are not empty. -/
theorem names_of_concat {cs root : List Component} {name : List UInt8}
    {x : List (List UInt8)} (hx : x ≠ []) (h : cs ++ [.name name] = root ++ x.map .name) :
    ∃ above, x = above ++ [name] ∧ cs = root ++ above.map .name := by
  obtain ⟨above, last, rfl⟩ := (List.eq_nil_or_concat' x).resolve_left hx
  rw [List.map_append, ← List.append_assoc] at h
  obtain ⟨hcs, hlast⟩ := List.append_inj' h rfl
  have hname : name = last := by simpa using hlast
  exact ⟨above, by rw [hname], hcs⟩

/-- A base with an extension that lies under the root by its text. The extension belongs
to the last name of the base: the root and `..` with an extension would give the file
a name that `hnamed` excludes. -/
theorem normalComponents_append {cs root : List Component} {q p : Path} {extension : String}
    {x : List (List UInt8)} (hnormal : IsNormal cs) (hne : cs ≠ [])
    (hslash : '/' ∉ extension.toList) (hx : x ≠ []) (hp : p.components = x.map .name)
    (hnamed : ¬IsNamedByExtension [extension] p)
    (hq : q = (ofComponents cs).append (Utf8.encode extension.toList))
    (hcs : q.normalComponents = root ++ x.map .name) :
    q = ofComponents (root ++ x.map .name) ∧
      (cs = root ++ x.map .name ∨ ∃ above name, cs = root ++ (above ++ [name]).map .name ∧
        x = above ++ [name ++ Utf8.encode extension.toList]) := by
  -- The name of the file is the last one of `x`.
  have hlast : ∀ above name, x = above ++ [name] → p.fileName? = some name := by
    intro above name hxa
    have hcomponents : p.components = above.map .name ++ [.name name] := by
      rw [hp, hxa, List.map_append, List.map_singleton]
    exact fileName?_of_components hcomponents
  obtain ⟨init, c, rfl⟩ := (List.eq_nil_or_concat' cs).resolve_left hne
  rcases last_of_isNormal hnormal with ⟨rfl, rfl⟩ | rfl | ⟨name, -, rfl⟩
  · -- The root with an extension is the root, or it is named like the extension.
    exfalso
    rw [List.nil_append] at hq
    subst hq
    rcases normalComponents_append_root hslash with hroot | hroot
    · rw [hroot] at hcs
      obtain ⟨above, last, rfl⟩ := (List.eq_nil_or_concat' x).resolve_left hx
      rw [List.map_append, ← List.append_assoc, ← List.nil_append [Component.root]] at hcs
      simpa using (List.append_inj' hcs rfl).2
    · rw [hroot] at hcs
      rw [← List.singleton_append] at hcs
      obtain ⟨above, hxa, -⟩ := names_of_concat hx hcs
      exact hnamed ⟨extension, by simp, Or.inl (hlast _ _ hxa)⟩
  · by_cases hempty : Utf8.encode extension.toList = []
    · -- An empty extension leaves the base as it is.
      have hbase : q = ofComponents (init ++ [.up]) := by
        rw [hq, hempty]
        simp [append]
      rw [hbase, normalComponents_ofComponents hnormal] at hcs
      exact ⟨by rw [hbase, hcs], Or.inl hcs⟩
    · exfalso
      obtain ⟨hnormal', hwrite⟩ := appendExtension_up hnormal hempty hslash
      rw [hq, hwrite, normalComponents_ofComponents hnormal'] at hcs
      obtain ⟨above, hxa, -⟩ := names_of_concat hx hcs
      exact hnamed ⟨extension, by simp, Or.inr (hlast _ _ hxa)⟩
  · -- The extension goes to the last name of the base.
    obtain ⟨hnormal', hwrite⟩ := appendExtension hnormal hslash
    rw [hq, hwrite, normalComponents_ofComponents hnormal'] at hcs
    obtain ⟨above, hxa, hinit⟩ := names_of_concat hx hcs
    refine ⟨by rw [hq, hwrite, hcs], Or.inr ⟨above, name, ?_, hxa⟩⟩
    rw [hinit, List.map_append, List.append_assoc, List.map_singleton]

/-- A variant of a reference that lies under the root by its text has the components
that its base denotes there, and it is written with single slashes. -/
theorem normalComponents_candidate {extensions : List String} {root dir specifier q p : Path}
    {x : List (List UInt8)} (hslash : ∀ e ∈ extensions, '/' ∉ e.toList) (hx : x ≠ [])
    (hp : p.components = x.map .name) (hnamed : ¬IsNamedByExtension extensions p)
    (hq : q ∈ candidatePaths extensions root dir specifier)
    (hcs : q.normalComponents = root.normalComponents ++ x.map .name) :
    q = ofComponents (root.normalComponents ++ x.map .name) ∧
      ∃ b, baseComponents root dir specifier = root.normalComponents ++ b.map .name ∧
        Denotes extensions b x := by
  have hnormal := isNormal_baseComponents root dir specifier
  rw [mem_candidatePaths_iff] at hq
  split at hq
  · -- The index files of an empty base lie under the root only if the root is empty too.
    rename_i hempty
    obtain ⟨e, he, rfl⟩ := hq
    have hindex : IsNormal ([] ++ [.name (indexName e)]) :=
      isNormal_append_name isNormal_nil (isPlain_indexName (hslash e he))
    rw [indexFile_eq, ← List.nil_append [Component.name (indexName e)],
      normalComponents_ofComponents hindex] at hcs
    obtain ⟨above, hxa, hroot⟩ := names_of_concat hx hcs
    refine ⟨by rw [indexFile_eq, ← hcs, List.nil_append], above, ?_,
      Or.inr (Or.inr ⟨e, he, hxa⟩)⟩
    rw [hempty, ← hroot]
  · rename_i hbase
    rcases hq with hq | ⟨e, he, hq⟩ | ⟨e, he, hq⟩
    · rw [hq, normalComponents_ofComponents hnormal] at hcs
      exact ⟨by rw [hq, hcs], x, hcs, Or.inl rfl⟩
    · have hnamed' : ¬IsNamedByExtension [e] p := by
        rintro ⟨e', he', h⟩
        rw [List.mem_singleton.mp he'] at h
        exact hnamed ⟨e, he, h⟩
      obtain ⟨hwrite, hcases⟩ :=
        normalComponents_append hnormal hbase (hslash e he) hx hp hnamed' hq hcs
      refine ⟨hwrite, ?_⟩
      rcases hcases with hsame | ⟨above, name, hcut, hxa⟩
      · exact ⟨x, hsame, Or.inl rfl⟩
      · exact ⟨above ++ [name], hcut, Or.inr (Or.inl ⟨above, name, rfl, e, he, hxa⟩)⟩
    · rw [hq, joinIndex hnormal (hslash e he), normalComponents_ofComponents
        (isNormal_append_name hnormal (isPlain_indexName (hslash e he)))] at hcs
      obtain ⟨above, hxa, hcut⟩ := names_of_concat hx hcs
      exact ⟨by rw [hq, joinIndex hnormal (hslash e he), hcs], above, hcut,
        Or.inr (Or.inr ⟨e, he, hxa⟩)⟩

/-- Every file that an import denotes is probed, by the path that the normal form of the
root gives it. -/
theorem mem_candidatePaths_of_denotes {extensions : List String} {root dir specifier : Path}
    {b x : List (List UInt8)} (hslash : ∀ e ∈ extensions, '/' ∉ e.toList) (hx : x ≠ [])
    (hb : baseComponents root dir specifier = root.normalComponents ++ b.map .name)
    (h : Denotes extensions b x) :
    ofComponents (root.normalComponents ++ x.map .name)
      ∈ candidatePaths extensions root dir specifier := by
  have hnormal := isNormal_baseComponents root dir specifier
  rw [mem_candidatePaths_iff]
  rcases h with rfl | ⟨above, name, rfl, e, he, rfl⟩ | ⟨e, he, rfl⟩
  · rw [if_neg (by rw [hb]; simp [hx])]
    exact Or.inl (by rw [hb])
  · have hcut : baseComponents root dir specifier
        = (root.normalComponents ++ above.map .name) ++ [.name name] := by
      rw [hb, List.map_append, List.append_assoc, List.map_singleton]
    rw [if_neg (by rw [hcut]; simp)]
    refine Or.inr (Or.inl ⟨e, he, ?_⟩)
    rw [hcut] at hnormal ⊢
    rw [(appendExtension hnormal (hslash e he)).2, List.map_append, List.append_assoc,
      List.map_singleton]
  · -- An empty base has no variants but its index files, and they are what is asked for.
    split
    · rename_i hempty
      refine ⟨e, he, ?_⟩
      rw [hempty] at hb
      rw [indexFile_eq, List.map_append, ← List.append_assoc, ← hb]
      rfl
    · refine Or.inr (Or.inr ⟨e, he, ?_⟩)
      rw [joinIndex hnormal (hslash e he), hb, List.map_append, List.append_assoc,
        List.map_singleton]

/-! ### The report -/

/-- The names of a file that was found. -/
theorem names_of_found {w : Workspace} {c : Config} {root p : Path} (h : p ∈ found w c root) :
    ∃ x : List (List UInt8), x ≠ [] ∧ (∀ n ∈ x, IsPlain n) ∧ p = ofComponents (x.map .name) := by
  obtain ⟨-, -, names, hwalked, rfl⟩ := mem_found_iff.mp h
  have hne : names.map Name.bytes ≠ [] := by simpa using ne_nil_of_walked hwalked
  exact ⟨names.map Name.bytes, hne, isPlain_of_mem_names, rfl⟩

/-- A file without a name is no entry point. -/
theorem isEntryPoint_eq_false_iff {c : Config} {p : Path} :
    c.isEntryPoint p = false ↔
      ∀ entry ∈ c.entryPoints, p.fileName? ≠ some (Utf8.encode entry.toList) := by
  unfold Config.isEntryPoint
  cases hname : p.fileName? with
  | none => simp
  | some name =>
    simp only [List.any_eq_false, beq_iff_eq, ne_eq, Option.some.injEq]
    exact forall₂_congr fun entry _ => not_congr eq_comm

/-- The exact meaning of a scan. For extensions without a slash, and as long as no file
that was found is called like an extension or like `..` with an extension, the files of
a report are in strictly increasing order, and they are exactly the files `p` that were
found, such that

1. the name of `p` is no entry point, and
2. it is not the case that `p` exists behind the normal form of the root while some
   file that can be read has a specifier whose base is the normal form of the root
   followed by names `b` that denote `p`: `p` itself, `p` without its extension, or
   the directory of which `p` is an index file. -/
theorem unusedFiles_exact (w : Workspace) (c : Config) (root : Path)
    (hslash : ∀ e ∈ c.extensions, '/' ∉ e.toList)
    (hnamed : ∀ p ∈ found w c root, ¬IsNamedByExtension c.extensions p) :
    ((scan w c root).unusedFiles.Pairwise fun p q => p.compare q = .lt) ∧
    ∀ p, p ∈ (scan w c root).unusedFiles ↔
      p ∈ found w c root ∧
      (∀ entry ∈ c.entryPoints, p.fileName? ≠ some (Utf8.encode entry.toList)) ∧
      ¬(w.pathExists (root.normalize.join p) = true ∧
        ∃ f ∈ (discover w c root).sourceFiles, ∃ text, w.readText f.path = .ok text ∧
          ∃ s ∈ Specifier.specifiers text, ∃ b x : List (List UInt8),
            ((root.join f.directory).join (Path.ofChars s)).normalize.components
              = root.normalize.components ++ b.map .name ∧
            p.components = x.map .name ∧ Denotes c.extensions b x) := by
  refine ⟨sorted_unusedFiles w c root, fun p => ?_⟩
  rw [mem_unusedFiles_iff, isEntryPoint_eq_false_iff]
  refine and_congr_right fun hfound => and_congr_right fun _ => not_congr ?_
  obtain ⟨x, hx, hplain, rfl⟩ := names_of_found hfound
  have hcomponents : (ofComponents (x.map .name)).components = x.map .name :=
    components_ofComponents (isNormal_names hplain)
  have hjoin : root.normalize.join (ofComponents (x.map .name))
      = ofComponents (root.normalComponents ++ x.map .name) :=
    join_ofComponents (isNormal_normalComponents root) hx hplain
  rw [hcomponents, hjoin]
  simp only [components_normalize]
  constructor
  · rintro ⟨f, s, ⟨hf, text, hread, hs⟩, q, hq, hexists, hcs⟩
    obtain ⟨hwrite, b, hb, hdenotes⟩ :=
      normalComponents_candidate hslash hx hcomponents (hnamed _ hfound) hq hcs
    rw [hwrite] at hexists
    exact ⟨hexists, f, hf, text, hread, s, hs, b, x, hb, rfl, hdenotes⟩
  · rintro ⟨hexists, f, hf, text, hread, s, hs, b, y, hb, hxy, hdenotes⟩
    -- The names of a file are determined by its components.
    have hyx : y = x :=
      (List.map_injective_iff.mpr (fun _ _ => Component.name.inj) hxy).symm
    subst hyx
    refine ⟨f, s, ⟨hf, text, hread, hs⟩, _, mem_candidatePaths_of_denotes hslash hx hb hdenotes,
      hexists, ?_⟩
    exact normalComponents_ofComponents
      (isNormal_append_names (isNormal_normalComponents root) hplain)

/-- A root that is entered again through `..`, a directory with an index file, and a file
that imports nothing but itself. -/
def reenteredFrontend : Workspace :=
  Workspace.ofFiles [("frontend/index.ts", "import { b } from '../frontend/src/b'\n"),
    ("frontend/src/b.tsx", "export * from \"./c\"\nimport '../../shared/s'"),
    ("frontend/src/c/index.ts", ""), ("frontend/d.ts", "import './d.js'"),
    ("shared/s.ts", "")]

/-- In this frontend only `d.ts` is reported, and no import denotes it. -/
theorem unusedFiles_exact_reenteredFrontend :
    (∀ e ∈ ({} : Config).extensions, '/' ∉ e.toList) ∧
    (∀ p ∈ found reenteredFrontend {} (Path.ofString "frontend"),
      ¬IsNamedByExtension ({} : Config).extensions p) ∧
    (scan reenteredFrontend {} (Path.ofString "frontend")).unusedFiles = [Path.ofString "d.ts"] ∧
    ¬(reenteredFrontend.pathExists
        ((Path.ofString "frontend").normalize.join (Path.ofString "d.ts")) = true ∧
      ∃ f ∈ (discover reenteredFrontend {} (Path.ofString "frontend")).sourceFiles,
        ∃ text, reenteredFrontend.readText f.path = .ok text ∧
          ∃ s ∈ Specifier.specifiers text, ∃ b x : List (List UInt8),
            (((Path.ofString "frontend").join f.directory).join
                (Path.ofChars s)).normalize.components
              = (Path.ofString "frontend").normalize.components ++ b.map .name ∧
            (Path.ofString "d.ts").components = x.map .name ∧
              Denotes ({} : Config).extensions b x) := by
  have hslash : ∀ e ∈ ({} : Config).extensions, '/' ∉ e.toList := by decide
  have hnamed : ∀ p ∈ found reenteredFrontend {} (Path.ofString "frontend"),
      ¬IsNamedByExtension ({} : Config).extensions p := by decide +kernel
  have hunused : (scan reenteredFrontend {} (Path.ofString "frontend")).unusedFiles
      = [Path.ofString "d.ts"] := by decide +kernel
  have hexact := unusedFiles_exact reenteredFrontend {} (Path.ofString "frontend") hslash hnamed
  refine ⟨hslash, hnamed, hunused, ?_⟩
  exact ((hexact.2 _).mp (by rw [hunused]; simp)).2.2

end Unimported
