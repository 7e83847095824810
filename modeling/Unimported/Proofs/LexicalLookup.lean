import Unimported.Proofs.FileTree.NormalForm
import Unimported.Proofs.Path.Destination
import Unimported.Proofs.Path.Respelling
import Unimported.Proofs.Scan

/-!
# `Unimported.Proofs.LexicalLookup`: looking a path up by its normal form

A path is normalized by its text, and it is looked up in directories. The text may forget
about directories that the lookup has to pass: `a/../b` needs an `a`, and its normal form
does not. So of a path that names something the normal form names the same, and not the
other way round. What is left to see is that the system takes the normal form at all: it
only leaves components out, so it is no longer than the path and has no new bytes. The one
normal form that is not taken is the empty one. The statements:

* `foldl_settle_sublist`: settling leaves components out and brings none in.
* `exists_bytes_normalize`: what a normal form is made of.
* `stat_normalize`: a path that names an entry has a normal form that names the same entry,
  or it names the current directory and has the empty normal form.
-/

set_option autoImplicit false

namespace Unimported

namespace Path

/-! ### What a normal form is made of -/

/-- Settling a component adds nothing to the components but itself. -/
theorem settle_sublist (stack : List Component) (c : Component) :
    (settle stack c).reverse.Sublist (stack.reverse ++ [c]) := by
  unfold settle
  split
  · exact List.sublist_append_left _ _
  · rw [List.reverse_cons, List.append_assoc]
    exact List.sublist_append_left _ _
  · exact List.sublist_append_left _ _
  · rw [List.reverse_cons]

/-- Settling leaves components out and keeps the order of the others. -/
theorem foldl_settle_sublist (cs stack : List Component) :
    (cs.foldl settle stack).reverse.Sublist (stack.reverse ++ cs) := by
  induction cs generalizing stack with
  | nil => simp
  | cons c cs ih =>
    refine (ih (settle stack c)).trans ?_
    rw [← List.singleton_append, ← List.append_assoc]
    exact (settle_sublist stack c).append_right cs

/-- The slash that an absolute path begins with. -/
def rootBytes (p : Path) : List UInt8 :=
  if p.isAbsolute then [slash] else []

/-- A normal form is written with some of the components of its path. -/
theorem exists_bytes_normalize (p : Path) :
    ∃ cs : List Component, cs.Sublist p.body ∧
      p.normalize.bytes = p.rootBytes ++ [slash].intercalate (cs.map Component.bytes) := by
  have hsub : p.normalComponents.Sublist ((p.lead.foldl settle []).reverse ++ p.body) := by
    rw [normalComponents, components_eq, List.foldl_append]
    exact foldl_settle_sublist _ _
  cases h : p.isAbsolute with
  | true =>
    obtain ⟨names, -, hcs, hbytes⟩ := bytes_normalize_of_isAbsolute h
    refine ⟨names.map .name, ?_, ?_⟩
    · rw [components_normalize] at hcs
      rw [hcs, lead, if_pos h] at hsub
      exact List.cons_sublist_cons.mp hsub
    · rw [hbytes, map_bytes_names, rootBytes, if_pos h]
      rfl
  | false =>
    obtain ⟨ups, names, -, hcs, hbytes⟩ := bytes_normalize_of_relative h
    refine ⟨List.replicate ups .up ++ names.map .name, ?_, ?_⟩
    · rw [components_normalize] at hcs
      rwa [hcs, foldl_settle_lead h] at hsub
    · rw [hbytes, List.map_append, List.map_replicate, map_bytes_names, rootBytes,
        if_neg (by simp [h])]
      rfl

/-- The components of a path are written as its active segments are. -/
theorem map_bytes_body (p : Path) : p.body.map Component.bytes = p.activeSegments := by
  rw [body_eq_filterMap_activeSegments, List.map_filterMap]
  refine (List.filterMap_congr fun segment hsegment => ?_).trans List.filterMap_some
  obtain ⟨-, hempty, hdot⟩ := mem_activeSegments_iff.mp hsegment
  rw [Component.ofSegment?, if_neg (by simp [hempty, hdot])]
  split
  · rename_i hup
    rw [hup]
    rfl
  · rfl

/-- A normal form has no byte that its path does not have. -/
theorem mem_bytes_of_normalize {p : Path} {b : UInt8} (hslash : b ≠ slash) (hdot : b ≠ dot)
    (h : b ∈ p.normalize.bytes) : b ∈ p.bytes := by
  obtain ⟨cs, hcs, hbytes⟩ := exists_bytes_normalize p
  have hroot : b ∉ p.rootBytes := by
    unfold rootBytes
    split <;> simp [hslash]
  rw [hbytes, List.mem_append, or_iff_right hroot, mem_intercalate_slash_iff hslash] at h
  obtain ⟨part, hpart, hmem⟩ := h
  have hactive := (hcs.map Component.bytes).mem hpart
  rw [map_bytes_body] at hactive
  exact (mem_bytes_iff_exists p hslash hdot).mpr ⟨part, hactive, hmem⟩

/-! ### The length of a normal form -/

/-- The length of parts that are written one after the other, each with a separator. -/
def separatedLength : List (List UInt8) → Nat
  | [] => 0
  | part :: parts => part.length + 1 + separatedLength parts

/-- Fewer parts are no longer, since each brings its own separator. -/
theorem separatedLength_mono {parts parts' : List (List UInt8)} (h : parts.Sublist parts') :
    separatedLength parts ≤ separatedLength parts' := by
  induction h with
  | slnil => exact Nat.le_refl _
  | cons part _ ih => exact Nat.le_trans ih (Nat.le_add_left _ _)
  | cons_cons part _ ih => exact Nat.add_le_add_left ih _

/-- Between the parts there is one separator less than there are parts. -/
theorem length_intercalate_slash {parts : List (List UInt8)} (h : parts ≠ []) :
    ([slash].intercalate parts).length + 1 = separatedLength parts := by
  induction parts with
  | nil => exact absurd rfl h
  | cons part parts ih =>
    rcases eq_or_ne parts [] with rfl | hne
    · simp [separatedLength]
    · have hrest := ih hne
      rw [List.intercalate_cons_of_ne_nil hne]
      simp only [separatedLength, List.length_append, List.length_singleton] at hrest ⊢
      omega

/-- All active segments of a path, each with a slash, fit between its first slash and one at
its end. -/
theorem separatedLength_activeSegments_le (p : Path) :
    p.rootBytes.length + separatedLength p.activeSegments ≤ p.bytes.length + 1 := by
  have hself : ([slash].intercalate p.segments).length + 1 = separatedLength p.segments :=
    length_intercalate_slash (List.splitOn_ne_nil slash p.bytes)
  rw [segments, List.intercalate_splitOn slash] at hself
  cases h : p.isAbsolute with
  | true =>
    -- The first segment of an absolute path is empty, and only its slash counts.
    obtain ⟨rest, hrest⟩ := isAbsolute_iff.mp h
    have hsplit : p.bytes.splitOn slash = [] :: rest.splitOn slash := by
      rw [hrest, ← List.nil_append (slash :: rest), List.splitOn_append_cons_self]
      rfl
    have hactive : p.activeSegments.Sublist (rest.splitOn slash) := by
      rw [activeSegments, segments, hsplit, List.filter_cons_of_neg (by simp)]
      exact List.filter_sublist
    have hle := separatedLength_mono hactive
    rw [hsplit] at hself
    rw [rootBytes, if_pos h]
    simp only [separatedLength, List.length_nil] at hself hle ⊢
    simp only [List.length_singleton]
    omega
  | false =>
    have hactive : p.activeSegments.Sublist p.segments := List.filter_sublist
    have hle := separatedLength_mono hactive
    rw [rootBytes, if_neg (by simp [h]), List.length_nil, Nat.zero_add]
    exact hle.trans hself.ge

/-- A normal form is no longer than its path. -/
theorem length_normalize_le (p : Path) : p.normalize.bytes.length ≤ p.bytes.length := by
  obtain ⟨cs, hcs, hbytes⟩ := exists_bytes_normalize p
  have hsub := hcs.map Component.bytes
  rw [map_bytes_body] at hsub
  rw [hbytes, List.length_append]
  rcases eq_or_ne cs [] with rfl | hne
  · -- Only the slash of the root is left.
    unfold rootBytes
    split
    · rename_i h
      obtain ⟨rest, hrest⟩ := isAbsolute_iff.mp h
      simp [hrest]
    · simp
  · have hparts : cs.map Component.bytes ≠ [] := by simpa using hne
    have hlength := length_intercalate_slash hparts
    have hle := separatedLength_mono hsub
    have hall := separatedLength_activeSegments_le p
    omega

end Path

namespace Workspace

open Unimported.Path

/-- A path that names an entry of a tree without links has a normal form that names the same
entry. Only where the normal form is empty it names nothing, and then the path names the
current directory. -/
theorem stat_normalize {w : Workspace} (hfree : w.tree.LinkFree) {p : Path} {loc : Location}
    {e : Entry} (h : w.stat p = .ok (loc, e)) :
    (p.normalize ≠ Path.empty → w.stat p.normalize = .ok (loc, e)) ∧
    (p.normalize = Path.empty → loc = w.current ∧ e = .directory) := by
  have hplace := location_of_stat hfree h
  obtain ⟨hzero, hlimit, -, -⟩ := locate_eq_ok_iff.mp (stat_eq_ok_iff.mp h)
  constructor
  · intro hne
    have hcs : p.normalComponents ≠ [] := fun hnil => hne (by rw [Path.normalize, hnil]; rfl)
    refine stat_ofComponents hfree (isNormal_normalComponents p) hcs ?_ hplace
      (entryAt_of_stat h) (fun hmem => hzero ?_) ((length_normalize_le p).trans_lt hlimit)
    · show p.normalize.isAbsolute = true ∨ _
      rw [isAbsolute_normalize]
      exact start_of_stat h
    · exact mem_bytes_of_normalize (by decide) (by decide) hmem
  · intro hempty
    have hcs : p.normalComponents = [] := by
      rw [← components_normalize, hempty]
      decide
    rw [hcs, List.foldl_nil] at hplace
    obtain rfl := List.map_injective_iff.mpr Name.bytes_injective hplace
    have hrelative : p.isAbsolute = false := by
      rw [← isAbsolute_normalize, hempty]
      rfl
    have hdirectory := (start_of_stat h).resolve_left (by simp [hrelative])
    rw [entryAt_of_stat h] at hdirectory
    exact ⟨rfl, Option.some.inj hdirectory⟩

end Workspace

/-- A page, seen from beside it, and a library in another directory. -/
def pagesTree : Workspace :=
  { Workspace.ofFiles [("app/pages/a.ts", ""), ("lib/x.ts", "")] with
    current := Location.ofString "app/pages" }

/-- A path that climbs out of the current directory, goes back into it on the way, and ends
elsewhere. -/
theorem stat_normalize_pagesTree :
    let p := Path.ofString "../.././lib//../app/pages/../../lib/x.ts"
    (pagesTree.tree.LinkFree ∧
      pagesTree.stat p = .ok (Location.ofString "lib/x.ts", .file []) ∧
      p.normalize ≠ Path.empty) ∧
    p.normalize = Path.ofString "../../lib/x.ts" ∧
    pagesTree.stat p.normalize = .ok (Location.ofString "lib/x.ts", .file []) := by
  intro p
  have hfree : pagesTree.tree.LinkFree := FileTree.linkFree_of_all (by decide +kernel)
  have hstat : pagesTree.stat p = .ok (Location.ofString "lib/x.ts", .file []) := by
    decide +kernel
  have hne : p.normalize ≠ Path.empty := by decide +kernel
  exact ⟨⟨hfree, hstat, hne⟩, by decide +kernel, (Workspace.stat_normalize hfree hstat).1 hne⟩

end Unimported
