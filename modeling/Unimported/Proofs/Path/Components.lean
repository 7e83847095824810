import Unimported.Path.Normal

/-!
# `Unimported.Proofs.Path.Components`: what a path is made of

The components of a path as lists, without the bytes between them. The statements:

* `components_eq`: a path is its start, which is the root or a `.` or nothing, and then
  a body of `..` and plain names (`mem_body`).
* `components_join`: seen as components, a join puts the relative path behind the
  other one, and only a `.` at its start gets lost.
* `isAbsolute_parent?`: the directory of a relative path is relative.
-/

set_option autoImplicit false

namespace Unimported.Path

/-- Bytes that stand for a name where they stand between two slashes. -/
def IsPlain (bytes : List UInt8) : Prop :=
  bytes ≠ [] ∧ bytes ≠ [dot] ∧ bytes ≠ [dot, dot] ∧ slash ∉ bytes

/-- A component that can stand between two slashes: `..` or a plain name. -/
def Component.IsInner (c : Component) : Prop :=
  c = .up ∨ ∃ name, IsPlain name ∧ c = .name name

/-- The components that a path has after its root or the `.` at its start. -/
def body (p : Path) : List Component :=
  p.segments.filterMap Component.ofSegment?

/-- The root or the `.` at the start of a path. -/
def lead (p : Path) : List Component :=
  if p.isAbsolute then [.root]
  else if p.segments.head? = some [dot] then [.here]
  else []

/-- The components of a path are what stands at its start and then those between slashes. -/
theorem components_eq (p : Path) : p.components = p.lead ++ p.body := by
  unfold components lead body
  split
  · rfl
  · split <;> rfl

/-- A plain name is a component that names an entry. -/
theorem ofSegment?_plain {bytes : List UInt8} (h : IsPlain bytes) :
    Component.ofSegment? bytes = some (.name bytes) := by
  obtain ⟨hempty, hdot, hup, -⟩ := h
  simp [Component.ofSegment?, hempty, hdot, hup]

/-- No segment has a slash. -/
theorem slash_notMem_of_mem_splitOn {bytes segment : List UInt8}
    (h : segment ∈ bytes.splitOn slash) : slash ∉ segment := by
  induction bytes generalizing segment with
  | nil => simp_all
  | cons b rest ih =>
    rw [List.splitOn_cons_eq_if_modifyHead] at h
    split at h
    · rcases List.mem_cons.mp h with rfl | h
      · simp
      · exact ih h
    · -- A byte that is no slash goes to the front of the first segment.
      rename_i hb
      have hb : b ≠ slash := by simpa using hb
      obtain ⟨first, others, hsplit⟩ :=
        List.exists_cons_of_ne_nil (List.splitOn_ne_nil slash rest)
      rw [hsplit, List.modifyHead_cons] at h
      rw [hsplit] at ih
      rcases List.mem_cons.mp h with rfl | h
      · have hfirst : slash ∉ first := ih (List.mem_cons_self ..)
        simp [hb.symm, hfirst]
      · exact ih (List.mem_cons_of_mem _ h)

/-- What stands between two slashes has no slash itself. -/
theorem slash_notMem_segment {p : Path} {segment : List UInt8}
    (h : segment ∈ p.segments) : slash ∉ segment :=
  slash_notMem_of_mem_splitOn h

/-- A component of the body is `..` or a name that can be written as it is. -/
theorem mem_body {p : Path} {c : Component} (h : c ∈ p.body) : c.IsInner := by
  obtain ⟨segment, hmem, hc⟩ := List.mem_filterMap.mp h
  have hslash := slash_notMem_segment hmem
  unfold Component.ofSegment? at hc
  split at hc
  · cases hc
  · rename_i hidle
    obtain ⟨hempty, hdot⟩ := not_or.mp hidle
    split at hc
    · cases hc
      exact Or.inl rfl
    · rename_i hup
      cases hc
      exact Or.inr ⟨segment, ⟨hempty, hdot, hup, hslash⟩, rfl⟩

/-! ### Joining -/

/-- An absolute path begins with a slash. -/
theorem isAbsolute_iff {p : Path} :
    p.isAbsolute = true ↔ ∃ rest, p.bytes = slash :: rest := by
  obtain ⟨bytes⟩ := p
  cases bytes with
  | nil => simp [isAbsolute]
  | cons b rest => simp [isAbsolute]

/-- The bytes of a join, by how the first path ends: it is empty, it has a slash
there already, or it gets one. -/
theorem join_cases (p q : Path) (hq : q.isAbsolute = false) :
    (p.bytes = [] ∧ p.join q = q) ∨
      (∃ above, p.bytes = above ++ [slash] ∧ (p.join q).bytes = above ++ slash :: q.bytes) ∨
      (p.bytes ≠ [] ∧ (p.join q).bytes = p.bytes ++ slash :: q.bytes) := by
  unfold join
  rw [if_neg (by simp [hq])]
  by_cases hempty : p.bytes = []
  · exact Or.inl ⟨hempty, by simp [hempty]⟩
  · by_cases hlast : p.bytes.getLast? = some slash
    · obtain ⟨above, habove⟩ := List.getLast?_eq_some_iff.mp hlast
      exact Or.inr (Or.inl ⟨above, habove, by simp [habove]⟩)
    · exact Or.inr (Or.inr ⟨hempty, by simp [hempty, hlast]⟩)

/-- Joining puts the components of both paths one after the other. -/
theorem body_join (p q : Path) (hq : q.isAbsolute = false) :
    (p.join q).body = p.body ++ q.body := by
  unfold body segments
  rcases join_cases p q hq with ⟨hp, hj⟩ | ⟨above, hp, hj⟩ | ⟨-, hj⟩
  · rw [hj, hp]
    simp [Component.ofSegment?]
  · rw [hj, hp, List.splitOn_append_cons_self, List.splitOn_append_cons_self]
    simp [Component.ofSegment?]
  · rw [hj, List.splitOn_append_cons_self, List.filterMap_append]

/-- A path of at least one byte starts as it did when another path is put behind it. -/
theorem lead_of_bytes_append {p r : Path} {rest : List UInt8} (hp : p.bytes ≠ [])
    (hr : r.bytes = p.bytes ++ slash :: rest) : r.lead = p.lead := by
  have habs : r.isAbsolute = p.isAbsolute := by
    obtain ⟨b, bs, hb⟩ := List.exists_cons_of_ne_nil hp
    simp [isAbsolute, hr, hb]
  have hhead : r.segments.head? = p.segments.head? := by
    obtain ⟨s, ss, hs⟩ := List.exists_cons_of_ne_nil (List.splitOn_ne_nil slash p.bytes)
    simp [segments, hr, List.splitOn_append_cons_self, hs]
  rw [lead, lead, habs, hhead]

/-- The start of a joined path is that of the first one, unless this is empty. -/
theorem lead_join (p q : Path) (hq : q.isAbsolute = false) :
    (p.join q).lead = if p.bytes = [] then q.lead else p.lead := by
  rcases join_cases p q hq with ⟨hp, hj⟩ | ⟨above, hp, hj⟩ | ⟨hp, hj⟩
  · rw [if_pos hp, hj]
  · rw [if_neg (by simp [hp])]
    -- The slash at the end of `p` starts a segment of its own, unless it is the root.
    by_cases habove : above = []
    · subst habove
      simp [lead, isAbsolute, hp, hj]
    · rw [lead_of_bytes_append (p := ⟨above⟩) habove hj,
        lead_of_bytes_append (p := ⟨above⟩) habove hp]
  · rw [if_neg hp, lead_of_bytes_append hp hj]

/-- A join has the components of both paths, but for the `.` at the start of the
second one where it is not at the start any more. -/
theorem components_join (p q : Path) (hq : q.isAbsolute = false) :
    (p.join q).components = if p.bytes = [] then q.components else p.components ++ q.body := by
  rw [components_eq, lead_join p q hq, body_join p q hq]
  split
  · rename_i hp
    have hbody : p.body = [] := by simp [body, segments, hp, Component.ofSegment?]
    rw [hbody, List.nil_append, ← components_eq]
  · rw [components_eq, List.append_assoc]

/-- A path that is joined with a relative one is absolute exactly if it was so before. -/
theorem isAbsolute_join (p q : Path) (hq : q.isAbsolute = false) :
    (p.join q).isAbsolute = p.isAbsolute := by
  rcases join_cases p q hq with ⟨hp, hj⟩ | ⟨above, hp, hj⟩ | ⟨hp, hj⟩
  · rw [hj, hq]
    simp [isAbsolute, hp]
  · cases above with
    | nil => simp [isAbsolute, hp, hj]
    | cons b rest => simp [isAbsolute, hp, hj]
  · obtain ⟨b, rest, hb⟩ := List.exists_cons_of_ne_nil hp
    simp [isAbsolute, hj, hb]

/-- Joining leaves no empty path if something is joined. -/
theorem join_ne_empty (p : Path) {q : Path} (hq : q.isAbsolute = false) (hne : q ≠ empty) :
    p.join q ≠ empty := by
  intro hempty
  rcases join_cases p q hq with ⟨-, hj⟩ | ⟨above, -, hj⟩ | ⟨-, hj⟩
  · exact hne (hj.symm.trans hempty)
  · simp [hempty, empty] at hj
  · simp [hempty, empty] at hj

/-- A joined path is at least as long as the first one. -/
theorem length_le_join (p q : Path) (hq : q.isAbsolute = false) :
    p.bytes.length ≤ (p.join q).bytes.length := by
  rcases join_cases p q hq with ⟨hp, -⟩ | ⟨above, hp, hj⟩ | ⟨-, hj⟩
  · simp [hp]
  · simp [hp, hj]
  · simp [hj]

/-- The directory of a relative path is a relative path. -/
theorem isAbsolute_parent? {p q : Path} (hp : p.isAbsolute = false) (h : p.parent? = some q) :
    q.isAbsolute = false := by
  unfold parent? at h
  split at h
  · cases h
  · rename_i first others hsegments
    split at h
    · split at h <;> cases h
      rfl
    · rename_i hkept
      rw [hp] at h
      have hslash : slash ∉ first := slash_notMem_segment (hsegments ▸ List.mem_cons_self ..)
      have hfirst : first ≠ [] := by
        rintro rfl
        -- Nothing before the first slash, and something behind it.
        have hbytes : [slash].intercalate p.segments = p.bytes := List.intercalate_splitOn slash
        rw [hsegments] at hbytes
        cases others with
        | nil => exact hkept rfl
        | cons second others =>
          rw [List.intercalate_cons_cons, List.nil_append] at hbytes
          rw [isAbsolute_iff.mpr ⟨_, hbytes.symm⟩] at hp
          cases hp
      have hhead : ∀ rest, (⟨first ++ rest⟩ : Path).isAbsolute = false := by
        intro rest
        obtain ⟨b, bs, rfl⟩ := List.exists_cons_of_ne_nil hfirst
        have hb : slash ≠ b := fun heq => hslash (heq ▸ List.mem_cons_self ..)
        simp [isAbsolute, hb.symm]
      simp only [Bool.false_eq_true, if_false] at h
      split at h <;> cases h
      · simpa using hhead []
      · exact hhead _

end Unimported.Path
