import Unimported.Proofs.Candidate
import Unimported.Resolution

/-!
# `Unimported.Proofs.LexicalTarget`: a reference by what its text means

The base of a reference is normalized once, after the root, the directory and the specifier
have been joined. By `normalize_join` it comes to the same to normalize each of them first,
so that the paths which a reference may mean depend on nothing but what the three mean by
their text. What is written behind the base is not normalized any more, and where the
extensions are more than dots it does not have to be. The statements:

* `candidatePaths_congr`: three paths with the same normal forms give the same variants.
* `fromRoot?_candidate`: a variant is seen from the root as it is written.
* `candidatePaths_lexical`: both, with the law of joining that they come from.
-/

set_option autoImplicit false

namespace Unimported

open Unimported.Path

/-- The base of a reference depends on the normal forms of its parts. -/
theorem importBase_congr {root root' dir dir' specifier specifier' : Path}
    (hroot : root.normalize = root'.normalize) (hdir : dir.normalize = dir'.normalize)
    (hspecifier : specifier.normalize = specifier'.normalize) :
    importBase root dir specifier = importBase root' dir' specifier' := by
  have hinner : (root.join dir).normalize = (root'.join dir').normalize := by
    rw [normalize_join, hroot, hdir, ← normalize_join]
  show ((root.join dir).join specifier).normalize = ((root'.join dir').join specifier').normalize
  rw [normalize_join, hinner, hspecifier, ← normalize_join]

/-- The variants of an import depend on the root, the directory and the specifier by their normal
forms alone. -/
theorem candidatePaths_congr (extensions : List String)
    {root root' dir dir' specifier specifier' : Path}
    (hroot : root.normalize = root'.normalize) (hdir : dir.normalize = dir'.normalize)
    (hspecifier : specifier.normalize = specifier'.normalize) :
    candidatePaths extensions root dir specifier
      = candidatePaths extensions root' dir' specifier' := by
  unfold candidatePaths
  rw [importBase_congr hroot hdir hspecifier]

/-- What is looked for on disk is what is made relative to the root. -/
theorem fromRoot?_candidate {extensions : List String} {root dir specifier q : Path}
    (hextensions : ∀ e ∈ extensions, '/' ∉ e.toList ∧ ∃ c ∈ e.toList, c ≠ '.')
    (hq : q ∈ candidatePaths extensions root dir specifier) :
    fromRoot? root q = root.normalize.under? q := by
  unfold fromRoot?
  rw [normalize_candidate hextensions hq]

/-- The paths that a reference may mean depend on what its text means.

1. A joined path has the normal form of the joined normal forms.
2. Roots, directories and specifiers with the same normal forms give the same variants, byte
   by byte and in the same order, for all extensions.
3. If no extension has a slash and each has a character that is no dot, then every variant is
   its own normal form, so that the path looked for on disk is the one that is made relative
   to the root. -/
theorem candidatePaths_lexical :
    (∀ p q : Path, (p.join q).normalize = (p.normalize.join q.normalize).normalize) ∧
    (∀ (extensions : List String) (root root' dir dir' specifier specifier' : Path),
      root.normalize = root'.normalize → dir.normalize = dir'.normalize →
      specifier.normalize = specifier'.normalize →
      candidatePaths extensions root dir specifier
        = candidatePaths extensions root' dir' specifier') ∧
    ∀ (extensions : List String) (root dir specifier : Path),
      (∀ e ∈ extensions, '/' ∉ e.toList ∧ ∃ c ∈ e.toList, c ≠ '.') →
      ∀ q ∈ candidatePaths extensions root dir specifier,
        q.normalize = q ∧ fromRoot? root q = root.normalize.under? q := by
  refine ⟨normalize_join, ?_, ?_⟩
  · intro extensions root root' dir dir' specifier specifier' hroot hdir hspecifier
    exact candidatePaths_congr extensions hroot hdir hspecifier
  · intro extensions root dir specifier hextensions q hq
    exact ⟨normalize_candidate hextensions hq, fromRoot?_candidate hextensions hq⟩

/-- A reference in `lib/part` under a root that is spelled in two ways. -/
theorem candidatePaths_lexical_app :
    candidatePaths [".ts"] (ofString "./app/") (ofString "lib//part") (ofString "../kept")
        = candidatePaths [".ts"] (ofString "x/../app") (ofString "lib/part/.")
          (ofString "./.././kept") ∧
      ∀ q ∈ candidatePaths [".ts"] (ofString "./app/") (ofString "lib//part")
          (ofString "../kept"),
        q.normalize = q ∧
          fromRoot? (ofString "./app/") q = (ofString "./app/").normalize.under? q := by
  obtain ⟨-, hsame, hnormal⟩ := candidatePaths_lexical
  refine ⟨hsame _ _ _ _ _ _ _ ?_ ?_ ?_, hnormal _ _ _ _ ?_⟩
  · decide +kernel
  · decide +kernel
  · decide +kernel
  · intro e he
    rw [List.mem_singleton] at he
    subst he
    exact ⟨by decide, 't', by decide, by decide⟩

end Unimported
