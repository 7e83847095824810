import Mathlib.Data.List.Basic
import Unimported.Proofs.Path.Normal

/-!
# `Unimported.Proofs.Path.Spelling`: the bytes of joined and suffixed normal forms

Two paths that are made in different ways are probed as the same path only if their
bytes agree. The statements:

* `join_ofComponents`: names joined to a normal form are written like the normal form
  that goes on with them.
* `append_ofComponents`: bytes written after a normal form belong to its last
  component, unless that is the root.
* `slash_notMem_encode`: a text without a slash among its characters has none among its
  bytes. `exists_ne_dot_of_encode` tells a text of dots from other texts in the same way.
-/

set_option autoImplicit false

namespace Unimported

namespace Path

/-! ### Slashes between components -/

/-- Two lists between separators are put together with one more separator. -/
theorem intercalate_append {α : Type} (sep : α) {xs ys : List (List α)} (hxs : xs ≠ [])
    (hys : ys ≠ []) :
    [sep].intercalate (xs ++ ys) = [sep].intercalate xs ++ sep :: [sep].intercalate ys := by
  induction xs with
  | nil => exact absurd rfl hxs
  | cons x xs ih =>
    rcases eq_or_ne xs [] with rfl | hne
    · rw [List.singleton_append, List.intercalate_cons_of_ne_nil hys]
      simp
    · rw [List.cons_append, List.intercalate_cons_of_ne_nil (by simp [hne]), ih hne,
        List.intercalate_cons_of_ne_nil hne]
      simp

/-- The last part stands at the end, whatever is in front of it. -/
theorem exists_intercalate_concat {α : Type} (sep : α) (xs : List (List α)) :
    ∃ front, ∀ x, [sep].intercalate (xs ++ [x]) = front ++ x := by
  rcases eq_or_ne xs [] with rfl | hne
  · exact ⟨[], by simp⟩
  · refine ⟨[sep].intercalate xs ++ [sep], fun x => ?_⟩
    rw [intercalate_append sep hne (by simp)]
    simp

/-- How a normal form is written: the slash of the root if it has one, and then `..` and
names with single slashes between them. What is put behind it joins these. -/
theorem exists_bytes_ofComponents {cs : List Component} (h : IsNormal cs) :
    ∃ (root : List UInt8) (rest : List Component),
      (∀ c ∈ rest, c.IsInner) ∧
      (rest = [] → (cs = [] ∧ root = []) ∨ (cs = [.root] ∧ root = [slash])) ∧
      ∀ names : List (List UInt8), (ofComponents (cs ++ names.map Component.name)).bytes
        = root ++ [slash].intercalate ((rest ++ names.map Component.name).map Component.bytes) := by
  obtain ⟨names, hnames, hcs⟩ := h
  have hplain : ∀ c ∈ names.map Component.name, c.IsInner := by
    intro c hc
    obtain ⟨name, hname, rfl⟩ := List.mem_map.mp hc
    exact Or.inr ⟨name, hnames name hname, rfl⟩
  rcases hcs with rfl | ⟨ups, rfl⟩
  · refine ⟨[slash], names.map .name, hplain, fun hrest => Or.inr ⟨by rw [hrest], rfl⟩, ?_⟩
    intro more
    rfl
  · refine ⟨[], List.replicate ups .up ++ names.map .name, ?_, fun hrest => Or.inl ⟨hrest, rfl⟩, ?_⟩
    · intro c hc
      rcases List.mem_append.mp hc with hc | hc
      · exact Or.inl (List.eq_of_mem_replicate hc)
      · exact hplain c hc
    · intro more
      -- None of these is the root, so that no slash is written in front.
      have hroot : ∀ tail, List.replicate ups Component.up ++ names.map .name
          ++ more.map .name ≠ .root :: tail := by
        intro tail heq
        have hmem : Component.root ∈ List.replicate ups Component.up ++ names.map .name
            ++ more.map .name := by
          rw [heq]
          exact List.mem_cons_self
        simp at hmem
      unfold ofComponents
      split
      · rename_i heq
        exact absurd heq (hroot _)
      · rfl

/-- Neither `..` nor a plain name is empty or ends in a slash. -/
theorem getLast?_bytes {c : Component} (hc : c.IsInner) :
    c.bytes ≠ [] ∧ c.bytes.getLast? ≠ some slash := by
  have hslash := slash_notMem_bytes hc
  constructor
  · rcases hc with rfl | ⟨name, hname, rfl⟩
    · decide
    · exact hname.1
  · intro hlast
    exact hslash (List.mem_of_getLast? hlast)

/-- A path is told by its bytes. -/
theorem eq_of_bytes_eq {p q : Path} (h : p.bytes = q.bytes) : p = q := by
  cases p
  cases q
  rw [Path.mk.injEq]
  exact h

/-- The path of one name is this name. -/
theorem ofComponents_name (name : List UInt8) : ofComponents [.name name] = ⟨name⟩ := by
  simp [ofComponents, Component.bytes]

/-- A path of names is relative. -/
theorem isAbsolute_names {names : List (List UInt8)} (h : ∀ n ∈ names, IsPlain n) :
    (ofComponents (names.map .name)).isAbsolute = false := by
  have hcs := components_ofComponents (isNormal_names h)
  by_contra habs
  rw [components, if_pos (by simpa using habs)] at hcs
  cases names <;> simp at hcs

/-! ### Joining and appending -/

/-- Names joined to a normal form are written like the normal form that goes on with
them. -/
theorem join_ofComponents {cs : List Component} {names : List (List UInt8)}
    (h : IsNormal cs) (hne : names ≠ []) (hnames : ∀ n ∈ names, IsPlain n) :
    (ofComponents cs).join (ofComponents (names.map .name))
      = ofComponents (cs ++ names.map .name) := by
  have hbehind : (ofComponents (names.map .name)).bytes
      = [slash].intercalate ((names.map Component.name).map Component.bytes) := by
    cases names with
    | nil => exact absurd rfl hne
    | cons name names => rfl
  obtain ⟨root, rest, hrest, hnil, hbytes⟩ := exists_bytes_ofComponents h
  have hall := hbytes names
  have hfirst := hbytes []
  rw [List.map_nil, List.append_nil, List.append_nil] at hfirst
  apply eq_of_bytes_eq
  unfold join
  rw [if_neg (by simp [isAbsolute_names hnames]), hall, hbehind, hfirst]
  rcases eq_or_ne rest [] with hempty | hrestne
  · -- The root has its slash already, and the empty path gets none.
    rcases hnil hempty with ⟨-, rfl⟩ | ⟨-, rfl⟩ <;> simp [hempty]
  · -- The last component does not end in a slash, so that the join writes one.
    obtain ⟨init, c, rfl⟩ := (List.eq_nil_or_concat' rest).resolve_left hrestne
    obtain ⟨hcne, hclast⟩ := getLast?_bytes (hrest c (by simp))
    obtain ⟨front, hfront⟩ := exists_intercalate_concat slash (init.map Component.bytes)
    have hend : root ++ [slash].intercalate ((init ++ [c]).map Component.bytes)
        = (root ++ front) ++ c.bytes := by
      rw [List.map_append, List.map_singleton, hfront, List.append_assoc]
    have hnotEmpty : root ++ [slash].intercalate ((init ++ [c]).map Component.bytes) ≠ [] := by
      rw [hend]
      simp [hcne]
    have hnoSlash : (root ++ [slash].intercalate ((init ++ [c]).map Component.bytes)).getLast?
        ≠ some slash := by
      rw [hend, List.getLast?_append_of_ne_nil _ hcne]
      exact hclast
    have hsplit : ((init ++ [c]) ++ names.map Component.name).map Component.bytes
        = (init ++ [c]).map Component.bytes ++ (names.map Component.name).map Component.bytes :=
      List.map_append
    rw [if_neg (not_or.mpr ⟨hnotEmpty, hnoSlash⟩), hsplit,
      intercalate_append slash (by simp) (by simpa using hne)]
    simp

/-- What a path is written with in front of its last component, unless that is the
root. -/
theorem exists_bytes_concat (cs : List Component) :
    ∃ front, ∀ c : Component, c ≠ .root → (ofComponents (cs ++ [c])).bytes = front ++ c.bytes := by
  cases cs with
  | nil =>
    refine ⟨[], fun c hc => ?_⟩
    cases c <;> simp_all [ofComponents]
  | cons d cs =>
    by_cases hd : d = .root
    · obtain ⟨front, hfront⟩ := exists_intercalate_concat slash (cs.map Component.bytes)
      refine ⟨slash :: front, fun c _ => ?_⟩
      subst hd
      simp [ofComponents, hfront]
    · obtain ⟨front, hfront⟩ := exists_intercalate_concat slash ((d :: cs).map Component.bytes)
      refine ⟨front, fun c _ => ?_⟩
      rw [← hfront, ← List.map_singleton, ← List.map_append]
      unfold ofComponents
      split
      · rename_i heq
        exact absurd (List.cons.inj heq).1 hd
      · rfl

/-- Bytes written after a path belong to its last component. The root is the exception:
it ends in its slash, and they come to be a name of their own. -/
theorem append_ofComponents (cs : List Component) {c : Component} (hc : c ≠ .root)
    (suffix : List UInt8) :
    (ofComponents (cs ++ [c])).append suffix
      = ofComponents (cs ++ [.name (c.bytes ++ suffix)]) := by
  obtain ⟨front, hfront⟩ := exists_bytes_concat cs
  apply eq_of_bytes_eq
  rw [hfront _ (by simp)]
  show (ofComponents (cs ++ [c])).bytes ++ suffix = front ++ (c.bytes ++ suffix)
  rw [hfront c hc, List.append_assoc]

/-- Bytes behind the root stand behind its slash. -/
theorem append_root (suffix : List UInt8) :
    (ofComponents [.root]).append suffix = ⟨slash :: suffix⟩ := by
  simp [ofComponents, append]

/-- A name stays one when bytes without a slash are written after it. -/
theorem isPlain_append {name suffix : List UInt8} (hname : IsPlain name)
    (hsuffix : slash ∉ suffix) : IsPlain (name ++ suffix) := by
  obtain ⟨hempty, hdot, hup, hslash⟩ := hname
  refine ⟨by simp [hempty], ?_, ?_, by simp [hslash, hsuffix]⟩
  · intro heq
    rcases List.append_eq_singleton_iff.mp heq with ⟨h, -⟩ | ⟨h, -⟩
    · exact hempty h
    · exact hdot h
  · intro heq
    rcases List.append_eq_cons_iff.mp heq with ⟨h, -⟩ | ⟨rest, h, hrest⟩
    · exact hempty h
    · rcases List.append_eq_singleton_iff.mp hrest.symm with ⟨h', -⟩ | ⟨h', -⟩
      · exact hdot (by rw [h, h'])
      · exact hup (by rw [h, h'])

/-- `..` is a name as soon as bytes without a slash are written after it. -/
theorem isPlain_up_append {suffix : List UInt8} (hne : suffix ≠ []) (hsuffix : slash ∉ suffix) :
    IsPlain (Component.up.bytes ++ suffix) := by
  refine ⟨by simp [Component.bytes], by simp [Component.bytes], ?_, ?_⟩
  · simpa [Component.bytes] using hne
  · have hup : slash ∉ Component.up.bytes := by decide
    simp [hup, hsuffix]

end Path

namespace Utf8

/-- An ASCII byte stands for itself: no other character has it in its encoding. -/
theorem eq_ofNat_of_mem_encodeChar {c : Char} {b : UInt8} (hb : b.toNat < 0x80)
    (h : b ∈ encodeChar c) : c = Char.ofNat b.toNat := by
  have hvalid : c.toNat < 0x110000 := by
    rcases c.valid with h | ⟨-, h⟩
    · exact Nat.lt_trans h (by decide)
    · exact h
  -- All bytes of an encoding of more than one byte have their highest bit set.
  have hhigh : ∀ n : Nat, 0x80 ≤ n → n < 256 → b ≠ n.toUInt8 := by
    rintro n hlow hlt rfl
    rw [UInt8.toNat_ofNat_of_lt' hlt] at hb
    omega
  unfold encodeChar at h
  simp only at h
  split at h
  · rename_i hascii
    rw [List.mem_singleton.mp h, UInt8.toNat_ofNat_of_lt' (Nat.lt_trans hascii (by decide))]
    exact (Char.ofNat_toNat c).symm
  · exfalso
    split at h
    · simp only [List.mem_cons, List.not_mem_nil, or_false] at h
      rcases h with h | h <;> exact hhigh _ (by omega) (by omega) h
    · split at h
      · simp only [List.mem_cons, List.not_mem_nil, or_false] at h
        rcases h with h | h | h <;> exact hhigh _ (by omega) (by omega) h
      · simp only [List.mem_cons, List.not_mem_nil, or_false] at h
        rcases h with h | h | h | h <;> exact hhigh _ (by omega) (by omega) h

/-- Only the slash itself is encoded with the byte of a slash. -/
theorem slash_notMem_encodeChar {c : Char} (hc : c ≠ '/') : Path.slash ∉ encodeChar c := by
  intro h
  exact hc (eq_ofNat_of_mem_encodeChar (by decide) h)

/-- A text without a slash has none among its bytes. -/
theorem slash_notMem_encode {text : List Char} (h : '/' ∉ text) : Path.slash ∉ encode text := by
  intro hmem
  obtain ⟨c, hc, hslash⟩ := List.mem_flatMap.mp hmem
  exact slash_notMem_encodeChar (fun heq => h (heq ▸ hc)) hslash

/-- Every character has a byte. -/
theorem encodeChar_ne_nil (c : Char) : encodeChar c ≠ [] := by
  unfold encodeChar
  simp only
  split
  · simp
  · split
    · simp
    · split <;> simp

/-- Only the empty text has no bytes. -/
theorem encode_eq_nil_iff {text : List Char} : encode text = [] ↔ text = [] := by
  cases text with
  | nil => simp [encode]
  | cons c text => simp [encode, encodeChar_ne_nil]

/-- A text with a character that is no dot has a byte that is none. -/
theorem exists_ne_dot_of_encode {text : List Char} (h : ∃ c ∈ text, c ≠ '.') :
    ∃ b ∈ encode text, b ≠ Path.dot := by
  obtain ⟨c, hc, hdot⟩ := h
  obtain ⟨b, hb⟩ := List.exists_mem_of_ne_nil _ (encodeChar_ne_nil c)
  refine ⟨b, List.mem_flatMap.mpr ⟨c, hc, hb⟩, ?_⟩
  rintro rfl
  exact hdot (eq_ofNat_of_mem_encodeChar (by decide) hb)

/-- Texts are encoded one after the other. -/
theorem encode_append (text more : List Char) :
    encode (text ++ more) = encode text ++ encode more := by
  simp [encode]

end Utf8

end Unimported
