import Unimported.Proofs.Path.Normal

/-!
# `Unimported.Proofs.Path.Respelling`: one path, spelled in other ways

A slash can be repeated, a slash or a `.` can be written at the end, and a `.` between
two slashes or in front of a relative path. None of this says where the path leads. What
is left when the empty segments and the `.` are dropped are the active segments, and two
paths that have the same ones, and both start at the root or both do not, are spellings
of each other. The statements:

* `activeSegments_join`: a join has the active segments of both paths.
* `Respells.join`: what is put behind two spellings of a path are two spellings again.
* `Respells.normalComponents_eq`: two spellings have the same normal form.
* `Respells.mem_bytes_iff`: they have the same bytes, up to slashes and dots.
-/

set_option autoImplicit false

namespace Unimported.Path

/-- The segments that take a path somewhere, which are all but the empty ones and `.`. -/
def activeSegments (p : Path) : List (List UInt8) :=
  p.segments.filter fun segment => segment ≠ [] ∧ segment ≠ [dot]

/-- Two paths that differ in nothing but repeated and trailing slashes, and in segments
that are a `.`. -/
structure Respells (p q : Path) : Prop where
  /-- Both start at the root, or neither does. -/
  isAbsolute : p.isAbsolute = q.isAbsolute
  /-- Both have the same segments, apart from idle ones. -/
  activeSegments : p.activeSegments = q.activeSegments

instance (p q : Path) : Decidable (Respells p q) :=
  decidable_of_iff (p.isAbsolute = q.isAbsolute ∧ p.activeSegments = q.activeSegments)
    ⟨fun h => ⟨h.1, h.2⟩, fun h => ⟨h.1, h.2⟩⟩

/-- The active segments are all but the empty ones and the dots. -/
theorem mem_activeSegments_iff {p : Path} {segment : List UInt8} :
    segment ∈ p.activeSegments ↔ segment ∈ p.segments ∧ segment ≠ [] ∧ segment ≠ [dot] := by
  rw [activeSegments, List.mem_filter, decide_eq_true_eq]

/-- The active segments of a path are cut at a slash. -/
theorem activeSegments_of_bytes_append {p : Path} {front back : List UInt8}
    (h : p.bytes = front ++ slash :: back) :
    p.activeSegments = (⟨front⟩ : Path).activeSegments ++ (⟨back⟩ : Path).activeSegments := by
  rw [activeSegments, segments, h, List.splitOn_append_cons_self, List.filter_append]
  rfl

/-- A join has the active segments of both paths. -/
theorem activeSegments_join (p q : Path) (hq : q.isAbsolute = false) :
    (p.join q).activeSegments = p.activeSegments ++ q.activeSegments := by
  rcases join_cases p q hq with ⟨hp, hj⟩ | ⟨above, hp, hj⟩ | ⟨-, hj⟩
  · have hnone : p.activeSegments = [] := by
      rw [activeSegments, segments, hp]
      rfl
    rw [hj, hnone, List.nil_append]
  · -- The slash at the end of `p` ends nothing but an empty segment.
    have hidle : (⟨[]⟩ : Path).activeSegments = [] := rfl
    rw [activeSegments_of_bytes_append hj, activeSegments_of_bytes_append hp, hidle,
      List.append_nil]
  · exact activeSegments_of_bytes_append hj

/-- The body of a path has a component for each active segment. -/
theorem body_eq_filterMap_activeSegments (p : Path) :
    p.body = p.activeSegments.filterMap Component.ofSegment? := by
  rw [body, activeSegments, List.filterMap_filter]
  refine List.filterMap_congr fun segment _ => ?_
  split
  · rfl
  · rename_i hidle
    rw [Component.ofSegment?, if_pos]
    simpa [or_iff_not_imp_left] using hidle

/-- A byte that is no slash stands between two of them. -/
theorem mem_intercalate_slash_iff {parts : List (List UInt8)} {b : UInt8} (hb : b ≠ slash) :
    b ∈ [slash].intercalate parts ↔ ∃ part ∈ parts, b ∈ part := by
  induction parts with
  | nil => simp
  | cons part parts ih =>
    rcases eq_or_ne parts [] with rfl | hne
    · simp
    · rw [List.intercalate_cons_of_ne_nil hne]
      simp [hb, ih]

/-- A byte that is neither a slash nor a dot stands in an active segment. -/
theorem mem_bytes_iff_exists (p : Path) {b : UInt8} (hslash : b ≠ slash) (hdot : b ≠ dot) :
    b ∈ p.bytes ↔ ∃ segment ∈ p.activeSegments, b ∈ segment := by
  have hbytes : [slash].intercalate p.segments = p.bytes := List.intercalate_splitOn slash
  rw [← hbytes, mem_intercalate_slash_iff hslash]
  refine exists_congr fun segment => ?_
  rw [mem_activeSegments_iff, and_assoc, and_congr_right_iff]
  intro _
  -- Neither idle segment has such a byte.
  have hidle : b ∈ segment → segment ≠ [] ∧ segment ≠ [dot] := by
    intro hmem
    constructor
    · rintro rfl
      simp at hmem
    · rintro rfl
      exact hdot (List.mem_singleton.mp hmem)
  exact ⟨fun hmem => ⟨hidle hmem, hmem⟩, fun h => h.2⟩

namespace Respells

variable {p q : Path}

/-- It does not matter which of two spellings is named first. -/
theorem symm (h : Respells p q) : Respells q p :=
  ⟨h.isAbsolute.symm, h.activeSegments.symm⟩

/-- What is put behind two spellings of a path are two spellings again. -/
theorem join (h : Respells p q) {r : Path} (hr : r.isAbsolute = false) :
    Respells (p.join r) (q.join r) := by
  constructor
  · rw [isAbsolute_join p r hr, isAbsolute_join q r hr]
    exact h.isAbsolute
  · rw [activeSegments_join p r hr, activeSegments_join q r hr, h.activeSegments]

/-- Two spellings have the same normal form. -/
theorem normalComponents_eq (h : Respells p q) : p.normalComponents = q.normalComponents := by
  have hbody : p.body = q.body := by
    rw [body_eq_filterMap_activeSegments, h.activeSegments, ← body_eq_filterMap_activeSegments]
  have hlead : p.lead.foldl settle [] = q.lead.foldl settle [] := by
    cases habs : p.isAbsolute with
    | false => rw [foldl_settle_lead habs, foldl_settle_lead (h.isAbsolute ▸ habs)]
    | true =>
      have habs' : q.isAbsolute = true := h.isAbsolute ▸ habs
      rw [lead, lead, if_pos habs, if_pos habs']
  rw [normalComponents, normalComponents, components_eq, components_eq, List.foldl_append,
    List.foldl_append, hlead, hbody]

/-- Two spellings have the same bytes besides slashes and dots. -/
theorem mem_bytes_iff (h : Respells p q) {b : UInt8} (hslash : b ≠ slash) (hdot : b ≠ dot) :
    b ∈ p.bytes ↔ b ∈ q.bytes := by
  rw [mem_bytes_iff_exists p hslash hdot, mem_bytes_iff_exists q hslash hdot, h.activeSegments]

end Respells

end Unimported.Path
