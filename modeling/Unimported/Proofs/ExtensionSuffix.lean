import Unimported.Proofs.CurrentDirectory

/-!
# `Unimported.Proofs.ExtensionSuffix`: where an extension is written

The extensions of a configuration are tried by writing them behind the base of a reference.
Behind a name they make the name of a file next to it. The base may end in something else: the
empty base is the current directory and gets no extension, but a base that ends in `..`, and the
root, get one all the same. What stands there then is a name that has nothing to do with the
base, such as `...ts` in the current directory for an import of the directory around. The
statements:

* `isVariant_or_isMisnamed`: what the variants of a reference are, by the last component of its
  base.
* `not_isVariant_of_up`, `eq_dot_of_isVariant_root`: an extension behind `..` or behind the root
  gives none of the paths that were meant.
* `candidatePaths_variants_iff`: all variants are what was meant exactly if the base is the
  current directory or ends in a name.
* `candidatePaths_around_misnamed`: the variant `...ts` of an import of `..`.
-/

set_option autoImplicit false

namespace Unimported

open Unimported.Path

/-- Whether a path is one that a base gives with some extensions: the base itself, an index
file in it, or the base with an extension behind its last name. -/
def IsVariant (extensions : List String) (base q : Path) : Prop :=
  q.components = base.components ∨
  (∃ e ∈ extensions, q.components = base.components ++ [.name (indexName e)]) ∨
  ∃ e ∈ extensions, ∃ above name, base.components = above ++ [.name name] ∧
    q.components = above ++ [.name (name ++ Utf8.encode e.toList)]

/-- Whether a path is a base with an extension behind `..` or behind the root. The first is a
name in the directory that the `..` starts from, the second an entry of the root. -/
def IsMisnamed (extensions : List String) (base q : Path) : Prop :=
  ∃ e ∈ extensions,
    (∃ above, base.components = above ++ [.up] ∧
      q.components = above ++ [.name (Component.up.bytes ++ Utf8.encode e.toList)]) ∨
    base.components = [.root] ∧ q = ⟨slash :: Utf8.encode e.toList⟩

/-- The extensions of a normalized configuration begin with a dot. -/
theorem exists_dot_of_normalized {c : Config} {e : String} (h : e ∈ c.normalized.extensions) :
    ∃ rest, e.toList = '.' :: rest := by
  obtain ⟨plain, -, rfl⟩ := List.mem_map.mp h
  unfold Config.withDot
  split
  · rename_i hhead
    obtain ⟨rest, hrest⟩ := List.head?_eq_some_iff.mp hhead
    exact ⟨rest, hrest⟩
  · exact ⟨plain.toList, by simp⟩

/-- A dot is one byte. -/
theorem encode_dot (rest : List Char) : Utf8.encode ('.' :: rest) = dot :: Utf8.encode rest := rfl

section Variants

variable {extensions : List String} {root dir specifier q : Path}

/-- The base of an import has the base components, since these are in normal form. -/
theorem components_importBase (root dir specifier : Path) :
    (importBase root dir specifier).components = baseComponents root dir specifier :=
  components_ofComponents (isNormal_baseComponents root dir specifier)

/-- What the variants of a reference are, by the last component of its base. -/
theorem isVariant_or_isMisnamed (hencode : ∀ e ∈ extensions, Utf8.encode e.toList ≠ [])
    (hslash : ∀ e ∈ extensions, '/' ∉ e.toList)
    (hq : q ∈ candidatePaths extensions root dir specifier) :
    IsVariant extensions (importBase root dir specifier) q ∨
      IsMisnamed extensions (importBase root dir specifier) q := by
  have hnormal := isNormal_baseComponents root dir specifier
  rw [mem_candidatePaths_iff] at hq
  simp only [IsVariant, IsMisnamed, components_importBase]
  generalize baseComponents root dir specifier = base at hnormal hq ⊢
  split at hq
  · rename_i hempty
    obtain ⟨e, he, rfl⟩ := hq
    refine Or.inl (Or.inr (Or.inl ⟨e, he, ?_⟩))
    rw [indexFile_eq, hempty, List.nil_append]
    exact components_ofComponents
      (isNormal_append_name isNormal_nil (isPlain_indexName (hslash e he)))
  · rename_i hne
    rcases hq with rfl | ⟨e, he, rfl⟩ | ⟨e, he, rfl⟩
    · exact Or.inl (Or.inl (components_ofComponents hnormal))
    · -- The extension is written behind the last component: the root, `..`, or a name.
      obtain ⟨init, last, rfl⟩ := (List.eq_nil_or_concat' base).resolve_left hne
      rcases last_of_isNormal hnormal with ⟨rfl, rfl⟩ | rfl | ⟨name, -, rfl⟩
      · exact Or.inr ⟨e, he, Or.inr ⟨rfl, append_root _⟩⟩
      · obtain ⟨hnormal', hwrite⟩ := appendExtension_up hnormal (hencode e he) (hslash e he)
        refine Or.inr ⟨e, he, Or.inl ⟨init, rfl, ?_⟩⟩
        rw [hwrite, components_ofComponents hnormal']
      · obtain ⟨hnormal', hwrite⟩ := appendExtension hnormal (hslash e he)
        refine Or.inl (Or.inr (Or.inr ⟨e, he, init, name, rfl, ?_⟩))
        rw [hwrite, components_ofComponents hnormal']
    · refine Or.inl (Or.inr (Or.inl ⟨e, he, ?_⟩))
      rw [joinIndex hnormal (hslash e he), components_ofComponents
        (isNormal_append_name hnormal (isPlain_indexName (hslash e he)))]

/-- A base that ends in `..` has no variant with a name there. -/
theorem not_isVariant_of_up {base : Path} {above : List Component} {name : List UInt8}
    (hbase : base.components = above ++ [.up]) (hq : q.components = above ++ [.name name]) :
    ¬IsVariant extensions base q := by
  rintro (hsame | ⟨e, -, hindex⟩ | ⟨e, -, above', name', hcut, -⟩)
  · rw [hq, hbase] at hsame
    simp at hsame
  · rw [hq, hbase] at hindex
    simpa using congrArg List.length hindex
  · rw [hbase] at hcut
    simpa using (List.append_inj' hcut rfl).2

/-- The root with an extension is no variant of the root, unless it is the root again. -/
theorem eq_dot_of_isVariant_root {base : Path} {e : String} {rest : List Char}
    (hbase : base.components = [.root]) (hdot : e.toList = '.' :: rest)
    (hslash : '/' ∉ e.toList)
    (h : IsVariant extensions base ⟨slash :: Utf8.encode e.toList⟩) : e = "." := by
  have hcomponents := components_root_append (Utf8.slash_notMem_encode hslash)
  rw [hdot, encode_dot] at hcomponents h
  rcases h with hsame | ⟨e', -, hindex⟩ | ⟨-, -, above, name, hcut, -⟩
  · -- Only a lone dot leaves no component.
    have hnone : Component.ofSegment? (dot :: Utf8.encode rest) = none := by
      rw [hcomponents, hbase] at hsame
      simpa using hsame
    have hrest : Utf8.encode rest = [] := by
      by_contra hne
      unfold Component.ofSegment? at hnone
      rw [if_neg (by simp [hne])] at hnone
      split at hnone <;> cases hnone
    rw [Utf8.encode_eq_nil_iff.mp hrest] at hdot
    exact String.toList_injective hdot
  · -- The name of an index file does not begin with a dot.
    exfalso
    have hsome : Component.ofSegment? (dot :: Utf8.encode rest) = some (.name (indexName e')) := by
      rw [hcomponents, hbase] at hindex
      simpa using hindex
    have hname : dot :: Utf8.encode rest = indexName e' := by
      unfold Component.ofSegment? at hsome
      split at hsome
      · cases hsome
      · split at hsome
        · cases hsome
        · exact Component.name.inj (Option.some.inj hsome)
    have hindexName : indexName e'
        = 105 :: (Utf8.encode "ndex".toList ++ Utf8.encode e'.toList) := by
      rw [indexName, String.toList_append, Utf8.encode_append]
      rfl
    rw [hindexName] at hname
    exact absurd (List.cons.inj hname).1 (by decide)
  · have hlast := congrArg List.getLast? (hbase.symm.trans hcut)
    simp at hlast

/-- A base that is not empty is tried with every extension. -/
theorem append_mem_candidatePaths (hne : baseComponents root dir specifier ≠ []) {e : String}
    (he : e ∈ extensions) :
    (ofComponents (baseComponents root dir specifier)).append (Utf8.encode e.toList)
      ∈ candidatePaths extensions root dir specifier := by
  rw [mem_candidatePaths_iff, if_neg hne]
  exact Or.inr (Or.inl ⟨e, he, rfl⟩)

/-- If all variants of a base are what was meant, it ends in a name, or there is nothing to
write behind it but lone dots behind the root. -/
theorem name_or_dots_of_isVariant (hdot : ∀ e ∈ extensions, ∃ rest, e.toList = '.' :: rest)
    (hslash : ∀ e ∈ extensions, '/' ∉ e.toList) (hne : baseComponents root dir specifier ≠ [])
    (hall : ∀ q ∈ candidatePaths extensions root dir specifier,
      IsVariant extensions (importBase root dir specifier) q) :
    (∃ above name, (importBase root dir specifier).components = above ++ [.name name]) ∨
      ∀ e ∈ extensions, (importBase root dir specifier).components = [.root] ∧ e = "." := by
  have hcomponents := components_importBase root dir specifier
  have hnormal := isNormal_baseComponents root dir specifier
  have happend : ∀ e ∈ extensions, IsVariant extensions (importBase root dir specifier)
      ((ofComponents (baseComponents root dir specifier)).append (Utf8.encode e.toList)) :=
    fun e he => hall _ (append_mem_candidatePaths hne he)
  obtain ⟨init, last, hconcat⟩ := (List.eq_nil_or_concat' _).resolve_left hne
  rw [hconcat] at hcomponents hnormal happend
  -- An extension behind `..` gives no variant, and behind the root only a lone dot does.
  rcases last_of_isNormal hnormal with ⟨rfl, rfl⟩ | rfl | ⟨name, -, rfl⟩
  · refine Or.inr fun e he => ⟨hcomponents, ?_⟩
    obtain ⟨rest, hrest⟩ := hdot e he
    have hvariant := happend e he
    rw [List.nil_append, append_root] at hvariant
    exact eq_dot_of_isVariant_root hcomponents hrest (hslash e he) hvariant
  · refine Or.inr fun e he => absurd (happend e he) ?_
    obtain ⟨rest, hrest⟩ := hdot e he
    obtain ⟨hnormal', hwrite⟩ :=
      appendExtension_up hnormal (by simp [hrest, encode_dot]) (hslash e he)
    rw [hwrite]
    exact not_isVariant_of_up hcomponents (components_ofComponents hnormal')
  · exact Or.inl ⟨init, name, hcomponents⟩

/-- A base that has an extension in the wrong place ends in `..` or is the root. -/
theorem getLast?_of_isMisnamed {base : Path} (h : IsMisnamed extensions base q) :
    base.components.getLast? = some .up ∨ base.components.getLast? = some .root := by
  obtain ⟨e, -, ⟨above, hup, -⟩ | ⟨hroot, -⟩⟩ := h
  · rw [hup, List.getLast?_concat]
    exact Or.inl rfl
  · rw [hroot]
    exact Or.inr rfl

/-- A lone dot behind the root is the root. -/
theorem isVariant_of_dots {base : Path}
    (hdots : ∀ e ∈ extensions, base.components = [.root] ∧ e = ".")
    (h : IsMisnamed extensions base q) : IsVariant extensions base q := by
  obtain ⟨e, he, ⟨above, hup, -⟩ | ⟨hroot, rfl⟩⟩ := h
  · have hlast := congrArg List.getLast? (hup.symm.trans (hdots e he).1)
    simp at hlast
  · refine Or.inl ?_
    rw [hroot, (hdots e he).2]
    rfl

end Variants

/-- Where an extension goes, for a configuration in normal form whose extensions have no slash.

1. Every variant of a reference is its base, an index file in the base, or the base with an
   extension behind its last name, or else it has the extension behind `..` or `/`.
2. It is never the last exactly if the base is the current directory or ends in a name. There
   is one more case: behind the root a lone dot is no name, so that nothing else is named if
   this is the only extension. -/
theorem candidatePaths_variants_iff (c : Config) (root dir specifier : Path)
    (hslash : ∀ e ∈ c.normalized.extensions, '/' ∉ e.toList) :
    let extensions := c.normalized.extensions
    let base := importBase root dir specifier
    let variants := candidatePaths extensions root dir specifier
    (∀ q ∈ variants, IsVariant extensions base q ∨ IsMisnamed extensions base q) ∧
    ((∀ q ∈ variants, IsVariant extensions base q) ↔
      base = Path.empty ∨ (∃ above name, base.components = above ++ [.name name]) ∨
        ∀ e ∈ extensions, base.components = [.root] ∧ e = ".") := by
  intro extensions base variants
  have hdot : ∀ e ∈ extensions, ∃ rest, e.toList = '.' :: rest := fun e he =>
    exists_dot_of_normalized he
  have hencode : ∀ e ∈ extensions, Utf8.encode e.toList ≠ [] := by
    intro e he
    obtain ⟨rest, hrest⟩ := hdot e he
    rw [hrest, encode_dot]
    exact List.cons_ne_nil _ _
  have hcases : ∀ q ∈ variants, IsVariant extensions base q ∨ IsMisnamed extensions base q :=
    fun q hq => isVariant_or_isMisnamed hencode hslash hq
  refine ⟨hcases, fun hall => ?_, fun h q hq => ?_⟩
  · by_cases hempty : baseComponents root dir specifier = []
    · exact Or.inl (importBase_eq_empty_iff.mpr hempty)
    · exact Or.inr (name_or_dots_of_isVariant hdot hslash hempty hall)
  · -- A misnamed variant has a base that ends in `..` or is the root.
    refine (hcases q hq).elim id fun hmisnamed => ?_
    have hlast := getLast?_of_isMisnamed hmisnamed
    rcases h with hempty | ⟨above, name, hname⟩ | hdots
    · rw [hempty] at hlast
      rcases hlast with hlast | hlast <;> cases hlast
    · rw [hname, List.getLast?_concat] at hlast
      rcases hlast with hlast | hlast <;> cases hlast
    · exact isVariant_of_dots hdots hmisnamed

/-- An import of a file that is named without its extension has nothing but proper variants. -/
theorem candidatePaths_variants_iff_lib :
    (∀ e ∈ ({} : Config).normalized.extensions, '/' ∉ e.toList) ∧
    (importBase (Path.ofString "app") (Path.ofString "pages") (Path.ofString "../lib")).components
      = (Path.ofString "app").components ++ [.name (Utf8.encode "lib".toList)] ∧
    ∀ q ∈ candidatePaths ({} : Config).normalized.extensions (Path.ofString "app")
        (Path.ofString "pages") (Path.ofString "../lib"),
      IsVariant ({} : Config).normalized.extensions
        (importBase (Path.ofString "app") (Path.ofString "pages") (Path.ofString "../lib")) q := by
  have hslash : ∀ e ∈ ({} : Config).normalized.extensions, '/' ∉ e.toList := by decide +kernel
  have hbase : (importBase (Path.ofString "app") (Path.ofString "pages")
      (Path.ofString "../lib")).components
      = (Path.ofString "app").components ++ [.name (Utf8.encode "lib".toList)] := by decide +kernel
  refine ⟨hslash, hbase, ?_⟩
  exact (candidatePaths_variants_iff {} _ _ _ hslash).2.mpr (Or.inr (Or.inl ⟨_, _, hbase⟩))

/-- An import of the directory around the current one is tried as the file `...ts` of the
current directory. -/
theorem candidatePaths_around_misnamed :
    (∀ e ∈ ({} : Config).normalized.extensions, '/' ∉ e.toList) ∧
    Path.ofString "...ts"
      ∈ candidatePaths ({} : Config).normalized.extensions here Path.empty around ∧
    ¬IsVariant ({} : Config).normalized.extensions (importBase here Path.empty around)
      (Path.ofString "...ts") := by
  have hbase : (importBase here Path.empty around).components = [] ++ [.up] := by decide +kernel
  have hname : (Path.ofString "...ts").components
      = [] ++ [.name (Utf8.encode "...ts".toList)] := by decide +kernel
  exact ⟨by decide +kernel, by decide +kernel, not_isVariant_of_up hbase hname⟩

end Unimported
