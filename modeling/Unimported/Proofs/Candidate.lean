import Unimported.Candidate
import Unimported.Proofs.Path.Spelling

/-!
# `Unimported.Proofs.Candidate`: the variants of a reference

The paths that a reference may mean are made by writing bytes behind its base. Here
they are taken apart into components again, for extensions without a slash. The
statements:

* `mem_candidatePaths_iff`: the variants of a reference, by the components of its base.
* `joinIndex`, `appendExtension`, `appendExtension_up`: each variant is written as the
  components that it has, with single slashes.
* `components_root_append`, `normalComponents_append_root`: the one variant that may not have
  a last name is the root with an extension.
* `candidate_eq_ofComponents`, `normalize_candidate`: all other variants are written like
  their normal form, and the root with an extension too, unless the extension is made of
  dots.
* `isStraight_candidate`: a base without `..` has no variant with a `..`.
-/

set_option autoImplicit false

namespace Unimported

open Unimported.Path

/-- The components of the base of a reference. -/
def baseComponents (root dir specifier : Path) : List Component :=
  ((root.join dir).join specifier).normalComponents

/-- The name of an index file. -/
def indexName (extension : String) : List UInt8 :=
  Utf8.encode ("index" ++ extension).toList

/-- The base of an import is the path with the base components. -/
theorem importBase_eq (root dir specifier : Path) :
    importBase root dir specifier = ofComponents (baseComponents root dir specifier) := rfl

/-- Base components are those of a normal form. -/
theorem isNormal_baseComponents (root dir specifier : Path) :
    IsNormal (baseComponents root dir specifier) :=
  isNormal_normalComponents _

/-- The base is the empty path exactly where the directories cancel out. -/
theorem importBase_eq_empty_iff {root dir specifier : Path} :
    importBase root dir specifier = Path.empty ↔ baseComponents root dir specifier = [] := by
  rw [importBase_eq]
  constructor
  · intro h
    have hread := components_ofComponents (isNormal_baseComponents root dir specifier)
    rw [h] at hread
    rw [← hread]
    rfl
  · intro h
    rw [h]
    rfl

/-- The variants of a reference. An empty base has its index files only. -/
theorem mem_candidatePaths_iff {extensions : List String} {root dir specifier q : Path} :
    q ∈ candidatePaths extensions root dir specifier ↔
      if baseComponents root dir specifier = [] then ∃ e ∈ extensions, q = indexFile e
      else q = ofComponents (baseComponents root dir specifier) ∨
        (∃ e ∈ extensions, q = (ofComponents (baseComponents root dir specifier)).append
          (Utf8.encode e.toList)) ∨
        ∃ e ∈ extensions, q = (ofComponents (baseComponents root dir specifier)).join
          (indexFile e) := by
  unfold candidatePaths
  simp only [importBase_eq_empty_iff]
  split
  · simp [eq_comm]
  · rw [importBase_eq]
    simp only [List.cons_append, List.mem_cons, List.mem_append, List.mem_map]
    simp only [eq_comm]

/-! ### Index files -/

/-- The name of an index file is a plain name if its extension has no slash. -/
theorem isPlain_indexName {extension : String} (h : '/' ∉ extension.toList) :
    IsPlain (indexName extension) := by
  have hindex : IsPlain (Utf8.encode "index".toList) := by
    refine ⟨?_, ?_, ?_, ?_⟩ <;> decide
  have hname : indexName extension
      = Utf8.encode "index".toList ++ Utf8.encode extension.toList := by
    rw [indexName, String.toList_append, Utf8.encode_append]
  rw [hname]
  exact isPlain_append hindex (Utf8.slash_notMem_encode h)

/-- The path of an index file has the name of the index file as its one component. -/
theorem indexFile_eq (extension : String) :
    indexFile extension = ofComponents [.name (indexName extension)] := by
  rw [ofComponents_name]
  rfl

/-- The index file in a base. -/
theorem joinIndex {cs : List Component} (hcs : IsNormal cs) {extension : String}
    (h : '/' ∉ extension.toList) :
    (ofComponents cs).join (indexFile extension)
      = ofComponents (cs ++ [.name (indexName extension)]) := by
  have hjoin := join_ofComponents hcs (List.cons_ne_nil (indexName extension) [])
    (by simpa using isPlain_indexName h)
  rw [List.map_singleton] at hjoin
  rw [indexFile_eq, hjoin]

/-! ### Suffixed paths -/

/-- A base that ends in a name, with an extension. -/
theorem appendExtension {cs : List Component} {name : List UInt8}
    (hcs : IsNormal (cs ++ [.name name])) {extension : String} (h : '/' ∉ extension.toList) :
    IsNormal (cs ++ [.name (name ++ Utf8.encode extension.toList)]) ∧
      (ofComponents (cs ++ [.name name])).append (Utf8.encode extension.toList)
        = ofComponents (cs ++ [.name (name ++ Utf8.encode extension.toList)]) := by
  refine ⟨?_, append_ofComponents cs (by simp) _⟩
  exact isNormal_append_name (isNormal_of_append hcs)
    (isPlain_append (isPlain_of_mem hcs (by simp)) (Utf8.slash_notMem_encode h))

/-- A base that ends in `..`, with an extension that is not empty. -/
theorem appendExtension_up {cs : List Component} (hcs : IsNormal (cs ++ [.up]))
    {extension : String} (hne : Utf8.encode extension.toList ≠ [])
    (h : '/' ∉ extension.toList) :
    IsNormal (cs ++ [.name (Component.up.bytes ++ Utf8.encode extension.toList)]) ∧
      (ofComponents (cs ++ [.up])).append (Utf8.encode extension.toList)
        = ofComponents (cs ++ [.name (Component.up.bytes ++ Utf8.encode extension.toList)]) := by
  refine ⟨?_, append_ofComponents cs (by simp) _⟩
  exact isNormal_append_name (isNormal_of_append hcs)
    (isPlain_up_append hne (Utf8.slash_notMem_encode h))

/-- What is written behind the root is its only other component, if it is one. -/
theorem components_root_append {suffix : List UInt8} (hslash : slash ∉ suffix) :
    (⟨slash :: suffix⟩ : Path).components = .root :: (Component.ofSegment? suffix).toList := by
  rw [components, if_pos (by simp [isAbsolute]), segments]
  simp only
  rw [← List.nil_append (slash :: suffix), List.splitOn_append_cons_self,
    List.splitOn_eq_singleton hslash]
  -- The slash of the root ends an empty segment, which is no component.
  have hfirst : Component.ofSegment? [] = none := rfl
  rw [List.splitOn_nil, List.singleton_append, List.filterMap_cons, hfirst]
  cases hsuffix : Component.ofSegment? suffix with
  | none => simp [hsuffix]
  | some c => simp [hsuffix]

/-- The root with an extension is the root or has the extension for its only name. -/
theorem normalComponents_append_root {extension : String} (h : '/' ∉ extension.toList) :
    ((ofComponents [.root]).append (Utf8.encode extension.toList)).normalComponents = [.root] ∨
      ((ofComponents [.root]).append (Utf8.encode extension.toList)).normalComponents
        = [.root, .name (Utf8.encode extension.toList)] := by
  rw [append_root, normalComponents, components_root_append (Utf8.slash_notMem_encode h)]
  unfold Component.ofSegment?
  split
  · exact Or.inl rfl
  · split
    · exact Or.inl rfl
    · exact Or.inr rfl

/-- The variants of a reference are written as normal forms, all but the root with an
extension. -/
theorem candidate_isNormal_or_root {extensions : List String} {root dir specifier q : Path}
    (hslash : ∀ e ∈ extensions, '/' ∉ e.toList)
    (hq : q ∈ candidatePaths extensions root dir specifier) :
    (∃ cs, IsNormal cs ∧ q = ofComponents cs) ∨
      ∃ e ∈ extensions, q = (ofComponents [.root]).append (Utf8.encode e.toList) := by
  have hnormal := isNormal_baseComponents root dir specifier
  rw [mem_candidatePaths_iff] at hq
  generalize baseComponents root dir specifier = base at hnormal hq
  split at hq
  · obtain ⟨e, he, hq⟩ := hq
    exact Or.inl ⟨_, isNormal_append_name isNormal_nil (isPlain_indexName (hslash e he)),
      hq.trans (indexFile_eq e)⟩
  · rename_i hne
    rcases hq with hq | ⟨e, he, hq⟩ | ⟨e, he, hq⟩
    · exact Or.inl ⟨_, hnormal, hq⟩
    · -- The extension is written behind the last component: the root, `..`, or a name.
      obtain ⟨init, last, rfl⟩ := (List.eq_nil_or_concat' base).resolve_left hne
      rcases last_of_isNormal hnormal with ⟨rfl, rfl⟩ | rfl | ⟨name, -, rfl⟩
      · exact Or.inr ⟨e, he, hq⟩
      · by_cases hempty : Utf8.encode e.toList = []
        · refine Or.inl ⟨_, hnormal, ?_⟩
          rw [hq, hempty]
          simp [append]
        · obtain ⟨hnormal', hwrite⟩ := appendExtension_up hnormal hempty (hslash e he)
          exact Or.inl ⟨_, hnormal', hq.trans hwrite⟩
      · obtain ⟨hnormal', hwrite⟩ := appendExtension hnormal (hslash e he)
        exact Or.inl ⟨_, hnormal', hq.trans hwrite⟩
    · exact Or.inl ⟨_, isNormal_append_name hnormal (isPlain_indexName (hslash e he)),
        hq.trans (joinIndex hnormal (hslash e he))⟩

/-- The variants of a reference are written like their normal form, except for those that
lead nowhere but to the root, such as the root with the extension `.`. -/
theorem candidate_eq_ofComponents {extensions : List String} {root dir specifier q : Path}
    (hslash : ∀ e ∈ extensions, '/' ∉ e.toList)
    (hq : q ∈ candidatePaths extensions root dir specifier) (hroot : q.normalComponents ≠ [.root]) :
    q = ofComponents q.normalComponents := by
  rcases candidate_isNormal_or_root hslash hq with ⟨cs, hcs, rfl⟩ | ⟨e, he, rfl⟩
  · rw [normalComponents_ofComponents hcs]
  · rcases normalComponents_append_root (hslash e he) with h | h
    · exact absurd h hroot
    · rw [h, append_root]
      simp [ofComponents, Component.bytes]

/-- An extension with a character that is no dot is a name of its own behind the root. -/
theorem appendExtension_root {extension : String} (hslash : '/' ∉ extension.toList)
    (hdots : ∃ c ∈ extension.toList, c ≠ '.') :
    IsNormal [.root, .name (Utf8.encode extension.toList)] ∧
      (ofComponents [.root]).append (Utf8.encode extension.toList)
        = ofComponents [.root, .name (Utf8.encode extension.toList)] := by
  obtain ⟨b, hb, hdot⟩ := Utf8.exists_ne_dot_of_encode hdots
  have hplain : IsPlain (Utf8.encode extension.toList) := by
    refine ⟨?_, ?_, ?_, Utf8.slash_notMem_encode hslash⟩
    · exact List.ne_nil_of_mem hb
    · intro h
      rw [h] at hb
      exact hdot (List.mem_singleton.mp hb)
    · intro h
      rw [h] at hb
      simp [hdot] at hb
  refine ⟨⟨[Utf8.encode extension.toList], by simpa using hplain, Or.inl rfl⟩, ?_⟩
  rw [append_root]
  simp [ofComponents, Component.bytes]

/-- Every variant of a reference is its own normal form, where each extension has a character
that is no dot. -/
theorem normalize_candidate {extensions : List String} {root dir specifier q : Path}
    (hextensions : ∀ e ∈ extensions, '/' ∉ e.toList ∧ ∃ c ∈ e.toList, c ≠ '.')
    (hq : q ∈ candidatePaths extensions root dir specifier) : q.normalize = q := by
  have hwritten : ∃ cs, IsNormal cs ∧ q = ofComponents cs := by
    rcases candidate_isNormal_or_root (fun e he => (hextensions e he).1) hq with
      hwritten | ⟨e, he, hq⟩
    · exact hwritten
    · obtain ⟨hslash, hdots⟩ := hextensions e he
      obtain ⟨hnormal, hwrite⟩ := appendExtension_root hslash hdots
      exact ⟨_, hnormal, hq.trans hwrite⟩
  obtain ⟨cs, hcs, rfl⟩ := hwritten
  rw [Path.normalize, normalComponents_ofComponents hcs]

/-! ### Bases without `..` -/

/-- The variants of a base without `..` have no `..` either. -/
theorem isStraight_candidate {extensions : List String} {root dir specifier q : Path}
    {absolute : Bool} (hslash : ∀ e ∈ extensions, '/' ∉ e.toList)
    (hbase : IsStraight absolute (baseComponents root dir specifier))
    (hq : q ∈ candidatePaths extensions root dir specifier) :
    IsStraight absolute q.normalComponents := by
  have hnormal := isNormal_baseComponents root dir specifier
  rw [mem_candidatePaths_iff] at hq
  generalize baseComponents root dir specifier = base at hbase hnormal hq
  split at hq
  · -- An empty base is relative, and so are its index files.
    rename_i hempty
    obtain ⟨e, he, rfl⟩ := hq
    have hindex := isNormal_append_name isNormal_nil (isPlain_indexName (hslash e he))
    have hwrite : indexFile e = ofComponents ([] ++ [.name (indexName e)]) := indexFile_eq e
    rw [hwrite, normalComponents_ofComponents hindex]
    exact (hempty ▸ hbase).append_name _
  · rename_i hne
    rcases hq with rfl | ⟨e, he, rfl⟩ | ⟨e, he, rfl⟩
    · rwa [normalComponents_ofComponents hnormal]
    · obtain ⟨names, rfl⟩ := hbase
      rcases List.eq_nil_or_concat' names with rfl | ⟨above, name, rfl⟩
      · -- Nothing but the root, so that the extension gives the only name there is.
        cases absolute with
        | false => exact absurd rfl hne
        | true =>
          rcases normalComponents_append_root (hslash e he) with hroot | hroot
          · exact ⟨[], hroot⟩
          · exact ⟨[_], hroot⟩
      · rw [List.map_append, List.map_singleton, ← List.append_assoc] at hnormal ⊢
        obtain ⟨hnormal', hwrite⟩ := appendExtension hnormal (hslash e he)
        rw [hwrite, normalComponents_ofComponents hnormal']
        exact IsStraight.append_name ⟨above, rfl⟩ _
    · rw [joinIndex hnormal (hslash e he), normalComponents_ofComponents
        (isNormal_append_name hnormal (isPlain_indexName (hslash e he)))]
      exact hbase.append_name _

end Unimported
