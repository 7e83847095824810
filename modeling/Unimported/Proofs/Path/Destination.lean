import Unimported.Proofs.Path.Spelling

/-!
# `Unimported.Proofs.Path.Destination`: what a path means by its text

Read by its text alone, a path takes every place to a place: a name goes down, `..` goes
up as far as there is anything above, `.` stays and the root starts anew. This is the
meaning that normalizing has to keep, and it is all that a normal form tells: two paths
have the same normal form exactly if they lead to the same place from everywhere.

One half is a fact about the stack on which components are settled. The other half needs
a place on which two normal forms differ. A place of `ups + 1` names that are not in the
other path is one: a normal form that begins with `ups` times `..` leaves the last of these
names where it is, and the other path can only lead there if it leaves it too. The
statements:

* `destination_normalize`: a path leads where its normal form leads.
* `bytes_normalize_of_isAbsolute`, `bytes_normalize_of_relative`: how normal forms are
  written.
* `eq_of_foldl_follow_eq`: two normal forms that lead to the same place from everywhere are
  equal.
* `normalize_canonical`: a normal form is the one spelling of what its paths mean.
-/

set_option autoImplicit false

namespace Unimported.Path

/-- Where a path leads by its text alone. A place is given by its names, the last one
first. -/
def destination (p : Path) (place : List (List UInt8)) : List (List UInt8) :=
  p.components.foldl follow place

/-- A path leads where its normal form leads. -/
theorem destination_normalize (p : Path) (place : List (List UInt8)) :
    p.normalize.destination place = p.destination place := by
  show p.normalize.components.foldl follow place = p.components.foldl follow place
  rw [components_normalize, follow_normalComponents]

/-! ### How a normal form is written -/

/-- The components of names have their bytes. -/
theorem map_bytes_names (names : List (List UInt8)) :
    (names.map Component.name).map Component.bytes = names := by
  rw [List.map_map]
  exact List.map_id names

/-- The normal form of an absolute path: the root and names. -/
theorem bytes_normalize_of_isAbsolute {p : Path} (h : p.isAbsolute = true) :
    ∃ names : List (List UInt8), (∀ n ∈ names, IsPlain n) ∧
      p.normalize.components = .root :: names.map .name ∧
      p.normalize.bytes = slash :: [slash].intercalate names := by
  have hroot : .root ∈ p.normalComponents := root_mem_normalComponents_iff.mpr h
  obtain ⟨names, hnames, hcs | ⟨ups, hcs⟩⟩ := isNormal_normalComponents p
  · refine ⟨names, hnames, (components_normalize p).trans hcs, ?_⟩
    show (ofComponents p.normalComponents).bytes = _
    rw [hcs]
    show slash :: [slash].intercalate ((names.map Component.name).map Component.bytes) = _
    rw [map_bytes_names]
  · simp [hcs] at hroot

/-- The normal form of a relative path: some `..` and names. -/
theorem bytes_normalize_of_relative {p : Path} (h : p.isAbsolute = false) :
    ∃ (ups : Nat) (names : List (List UInt8)), (∀ n ∈ names, IsPlain n) ∧
      p.normalize.components = List.replicate ups .up ++ names.map .name ∧
      p.normalize.bytes = [slash].intercalate (List.replicate ups [dot, dot] ++ names) := by
  obtain ⟨names, hnames, hcs | ⟨ups, hcs⟩⟩ := isNormal_normalComponents p
  · have hroot := root_notMem_normalComponents_iff.mpr h
    simp [hcs] at hroot
  · refine ⟨ups, names, hnames, (components_normalize p).trans hcs, ?_⟩
    show (ofComponents p.normalComponents).bytes = _
    rw [hcs]
    -- Neither `..` nor a name is the root, so that no slash comes first.
    have hwrite : (ofComponents (List.replicate ups .up ++ names.map .name)).bytes
        = [slash].intercalate
          ((List.replicate ups Component.up ++ names.map Component.name).map Component.bytes) := by
      cases ups with
      | zero => cases names <;> rfl
      | succ ups => rfl
    rw [hwrite, List.map_append, List.map_replicate, map_bytes_names]
    rfl

/-- What is written with slashes between segments does not end in one, unless there is no
segment. -/
theorem getLast?_append_intercalate {parts : List (List UInt8)} (hne : parts ≠ [])
    (hparts : ∀ part ∈ parts, part ≠ [] ∧ slash ∉ part) (front : List UInt8) :
    (front ++ [slash].intercalate parts).getLast? ≠ some slash := by
  obtain ⟨init, last, rfl⟩ := (List.eq_nil_or_concat' parts).resolve_left hne
  obtain ⟨hlast, hslash⟩ := hparts last (by simp)
  obtain ⟨before, hbefore⟩ := exists_intercalate_concat slash init
  rw [hbefore, ← List.append_assoc, List.getLast?_append_of_ne_nil _ hlast]
  intro h
  exact hslash (List.mem_of_getLast? h)

/-- The root alone ends in a slash, which is the one that it is. -/
theorem getLast?_bytes_normalize (p : Path) :
    p.normalize.bytes.getLast? ≠ some slash ∨ p.normalize.bytes = [slash] := by
  have hplain : ∀ {names : List (List UInt8)}, (∀ n ∈ names, IsPlain n) →
      ∀ n ∈ names, n ≠ [] ∧ slash ∉ n :=
    fun hnames n hn => ⟨(hnames n hn).1, (hnames n hn).2.2.2⟩
  cases h : p.isAbsolute with
  | true =>
    obtain ⟨names, hnames, -, hbytes⟩ := bytes_normalize_of_isAbsolute h
    rw [hbytes]
    rcases eq_or_ne names [] with rfl | hne
    · exact Or.inr rfl
    · exact Or.inl (getLast?_append_intercalate hne (hplain hnames) [slash])
  | false =>
    obtain ⟨ups, names, hnames, -, hbytes⟩ := bytes_normalize_of_relative h
    rw [hbytes]
    left
    rcases eq_or_ne (List.replicate ups [dot, dot] ++ names) [] with hnone | hne
    · rw [hnone]
      decide
    · refine getLast?_append_intercalate hne ?_ []
      intro part hpart
      rcases List.mem_append.mp hpart with hup | hname
      · rw [List.eq_of_mem_replicate hup]
        decide
      · exact hplain hnames part hname

/-! ### Places that tell normal forms apart -/

/-- An absolute list of names leads to the same place from everywhere. -/
theorem foldl_follow_root (names place : List (List UInt8)) :
    (.root :: names.map Component.name).foldl follow place = names.reverse := by
  rw [List.foldl_cons, foldl_follow_names]
  exact List.append_nil _

/-- A relative list of components leads up first and then down its names. -/
theorem foldl_follow_relative (ups : Nat) (names place : List (List UInt8)) :
    (List.replicate ups Component.up ++ names.map Component.name).foldl follow place
      = names.reverse ++ place.drop ups := by
  rw [List.foldl_append, foldl_follow_ups, foldl_follow_names]

/-- There is always one more name. -/
theorem exists_isPlain_notMem (names : List (List UInt8)) : ∃ z, IsPlain z ∧ z ∉ names := by
  refine ⟨List.replicate (names.flatten.length + 1) 97, ⟨?_, ?_, ?_, ?_⟩, ?_⟩
  · simp
  · simp [List.replicate_succ, dot]
  · simp [List.replicate_succ, dot]
  · intro h
    exact absurd (List.eq_of_mem_replicate h) (by decide)
  · -- It is longer than all names together.
    intro h
    have hlength := (List.sublist_flatten_of_mem h).length_le
    rw [List.length_replicate] at hlength
    omega

/-- A path with `ups` times `..` at its start leaves one name of a place of `ups + 1`
names, and so does what leads to the same places. -/
theorem exists_mem_of_drop {ups : Nat} {names names' : List (List UInt8)}
    (left : List (List UInt8) → List (List UInt8))
    (h : ∀ place : List (List UInt8), (∀ n ∈ place, IsPlain n) →
      names.reverse ++ place.drop ups = names'.reverse ++ left place) :
    ∃ z, z ∈ left (List.replicate (ups + 1) z) := by
  obtain ⟨z, hplain, hnew⟩ := exists_isPlain_notMem names'
  refine ⟨z, ?_⟩
  have hplace := h (List.replicate (ups + 1) z) fun n hn => List.eq_of_mem_replicate hn ▸ hplain
  have hmem : z ∈ names.reverse ++ (List.replicate (ups + 1) z).drop ups := by
    rw [List.drop_replicate]
    simp
  rw [hplace] at hmem
  rcases List.mem_append.mp hmem with hname | hleft
  · exact absurd (List.mem_reverse.mp hname) hnew
  · exact hleft

/-- A list that leads to the same places leads up as far, since a place that is deep enough tells
how far. -/
theorem ups_le_of_drop {ups ups' : Nat} {names names' : List (List UInt8)}
    (h : ∀ place : List (List UInt8), (∀ n ∈ place, IsPlain n) →
      names.reverse ++ place.drop ups = names'.reverse ++ place.drop ups') : ups' ≤ ups := by
  obtain ⟨z, hz⟩ := exists_mem_of_drop (fun place => place.drop ups') h
  rw [List.drop_replicate] at hz
  have hne : ups + 1 - ups' ≠ 0 := (List.mem_replicate.mp hz).1
  omega

/-- An absolute path leads to one place, and a relative path does not. -/
theorem drop_ne_const {ups : Nat} {names names' : List (List UInt8)} :
    ¬∀ place : List (List UInt8), (∀ n ∈ place, IsPlain n) →
      names.reverse ++ place.drop ups = names'.reverse := by
  intro h
  have hplaces : ∀ place : List (List UInt8), (∀ n ∈ place, IsPlain n) →
      names.reverse ++ place.drop ups = names'.reverse ++ [] := by
    intro place hplace
    rw [h place hplace, List.append_nil]
  obtain ⟨z, hz⟩ := exists_mem_of_drop (fun _ => []) hplaces
  exact List.not_mem_nil hz

/-- Two normal forms that lead to the same place from everywhere are equal. -/
theorem eq_of_foldl_follow_eq {cs ds : List Component} (hcs : IsNormal cs) (hds : IsNormal ds)
    (h : ∀ place : List (List UInt8), (∀ n ∈ place, IsPlain n) →
      cs.foldl follow place = ds.foldl follow place) : cs = ds := by
  -- From the top, both lead to their names.
  have htop : cs.foldl follow [] = ds.foldl follow [] := h [] (by simp)
  obtain ⟨names, -, hcs | ⟨ups, hcs⟩⟩ := hcs
  · obtain ⟨names', -, hds | ⟨ups', hds⟩⟩ := hds
    · subst hcs hds
      rw [foldl_follow_root, foldl_follow_root] at htop
      rw [List.reverse_injective htop]
    · subst hcs hds
      simp only [foldl_follow_root, foldl_follow_relative] at h
      exact absurd (fun place hplace => (h place hplace).symm) drop_ne_const
  · obtain ⟨names', -, hds | ⟨ups', hds⟩⟩ := hds
    · subst hcs hds
      simp only [foldl_follow_root, foldl_follow_relative] at h
      exact absurd h drop_ne_const
    · subst hcs hds
      simp only [foldl_follow_relative] at h
      have hups : ups = ups' :=
        Nat.le_antisymm (ups_le_of_drop fun place hplace => (h place hplace).symm)
          (ups_le_of_drop h)
      rw [foldl_follow_relative, foldl_follow_relative, List.drop_nil, List.drop_nil,
        List.append_nil, List.append_nil] at htop
      rw [hups, List.reverse_injective htop]

/-! ### The normal form -/

/-- The normal form of a path is the one spelling of what the path means.

1. An absolute path has the root and names, and a relative path has some `..` and names.
   They are written with single slashes between them, and there is none at the end, but
   that the root is one. No component is a `.`.
2. The normal form is absolute if the path is, it is its own normal form, and it leads
   from every place where the path leads.
3. Two paths have the same normal form exactly if they lead to the same place from every
   place that is given by plain names. -/
theorem normalize_canonical :
    (∀ p : Path,
      ((p.isAbsolute = true ∧ ∃ names : List (List UInt8), (∀ n ∈ names, IsPlain n) ∧
          p.normalize.components = .root :: names.map .name ∧
          p.normalize.bytes = slash :: [slash].intercalate names) ∨
        (p.isAbsolute = false ∧
          ∃ (ups : Nat) (names : List (List UInt8)), (∀ n ∈ names, IsPlain n) ∧
            p.normalize.components = List.replicate ups .up ++ names.map .name ∧
            p.normalize.bytes = [slash].intercalate (List.replicate ups [dot, dot] ++ names))) ∧
      (p.normalize.bytes.getLast? ≠ some slash ∨ p.normalize.bytes = [slash]) ∧
      .here ∉ p.normalize.components ∧
      p.normalize.isAbsolute = p.isAbsolute ∧
      p.normalize.normalize = p.normalize ∧
      ∀ place, p.normalize.destination place = p.destination place) ∧
    ∀ p q : Path, p.normalize = q.normalize ↔
      ∀ place, (∀ n ∈ place, IsPlain n) → p.destination place = q.destination place := by
  constructor
  · intro p
    refine ⟨?_, getLast?_bytes_normalize p, ?_, isAbsolute_normalize p, normalize_normalize p,
      destination_normalize p⟩
    · cases h : p.isAbsolute with
      | true => exact Or.inl ⟨rfl, bytes_normalize_of_isAbsolute h⟩
      | false => exact Or.inr ⟨rfl, bytes_normalize_of_relative h⟩
    · rw [components_normalize]
      obtain ⟨names, -, hcs | ⟨ups, hcs⟩⟩ := isNormal_normalComponents p <;> simp [hcs]
  · intro p q
    constructor
    · intro h place _
      rw [← destination_normalize p, ← destination_normalize q, h]
    · intro h
      -- Normal forms that lead to the same places are equal, and a path leads where its own does.
      have hcs : p.normalComponents = q.normalComponents := by
        apply eq_of_foldl_follow_eq (isNormal_normalComponents p) (isNormal_normalComponents q)
        intro place hplace
        rw [follow_normalComponents, follow_normalComponents]
        exact h place hplace
      rw [normalize, normalize, hcs]

end Unimported.Path
