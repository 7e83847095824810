import Unimported.Proofs.Candidate
import Unimported.Proofs.FileTree.LinkFree

/-!
# `Unimported.Proofs.Prefix`: the same place, named from another directory

From the directory around it, a directory is named by its name, and from the directory
itself the one around is named by `..`. Written before a relative path, with a slash
between, either of them takes the path to the other directory. The statements:

* `candidatePaths_prefix`: where the base of a reference gets a prefix, each of its
  variants does.
* `stat_prefix`: a path with a prefix names what the path names in the directory to
  which the prefix leads.
-/

set_option autoImplicit false

namespace Unimported

namespace Path

/-- Whether a slash is written after a path when another path is joined to it. -/
def TakesSlash (r : Path) : Prop :=
  r.bytes ≠ [] ∧ r.bytes.getLast? ≠ some slash

/-! ### Paths with a prefix -/

/-- Joining writes a slash behind such a path. -/
theorem join_of_takesSlash {r q : Path} (hr : r.TakesSlash) (hq : q.isAbsolute = false) :
    r.join q = ⟨r.bytes ++ slash :: q.bytes⟩ := by
  rw [join, if_neg (by simp [hq]), if_neg (not_or.mpr hr)]

/-- A path other than the empty one has a byte. -/
theorem bytes_ne_nil {q : Path} (h : q ≠ empty) : q.bytes ≠ [] := by
  intro hbytes
  exact h (eq_of_bytes_eq hbytes)

/-- Only the first byte makes a path absolute. -/
theorem isAbsolute_bytes_append {q : Path} (hne : q ≠ empty) (hq : q.isAbsolute = false)
    (more : List UInt8) : (⟨q.bytes ++ more⟩ : Path).isAbsolute = false := by
  obtain ⟨b, bs, hb⟩ := List.exists_cons_of_ne_nil (bytes_ne_nil hne)
  simpa [isAbsolute, hb] using hq

/-- An extension goes to the end of the path behind the prefix. -/
theorem join_append {r q : Path} (hr : r.TakesSlash) (hq : q.isAbsolute = false)
    (hne : q ≠ empty) (suffix : List UInt8) :
    (r.join q).append suffix = r.join (q.append suffix) := by
  have happend : (q.append suffix).isAbsolute = false := isAbsolute_bytes_append hne hq suffix
  rw [join_of_takesSlash hr hq, join_of_takesSlash hr happend]
  simp [append]

/-- An index file goes behind the path behind the prefix. -/
theorem join_join {r q i : Path} (hr : r.TakesSlash) (hq : q.isAbsolute = false)
    (hne : q ≠ empty) (hi : i.isAbsolute = false) :
    (r.join q).join i = r.join (q.join i) := by
  have hlast : (r.bytes ++ slash :: q.bytes).getLast? = q.bytes.getLast? := by
    rw [← List.singleton_append, ← List.append_assoc,
      List.getLast?_append_of_ne_nil _ (bytes_ne_nil hne)]
  have hjoin : (q.join i).isAbsolute = false := by
    rw [isAbsolute_join q i hi, hq]
  have hprefix : r.join q = ⟨r.bytes ++ slash :: q.bytes⟩ := join_of_takesSlash hr hq
  rw [join_of_takesSlash hr hjoin, hprefix]
  -- Whether a slash comes before `i` depends on the end of `q` both times.
  by_cases hslash : q.bytes.getLast? = some slash
  · -- The slash at the end of `q` is enough for both.
    have houter : (⟨r.bytes ++ slash :: q.bytes⟩ : Path).join i
        = ⟨(r.bytes ++ slash :: q.bytes) ++ i.bytes⟩ := by
      rw [join, if_neg (by simp [hi]), if_pos (Or.inr (hlast.trans hslash))]
    have hinner : q.join i = ⟨q.bytes ++ i.bytes⟩ := by
      rw [join, if_neg (by simp [hi]), if_pos (Or.inr hslash)]
    rw [houter, hinner]
    simp
  · have houter : (⟨r.bytes ++ slash :: q.bytes⟩ : Path).TakesSlash :=
      ⟨by simp, fun h => hslash (hlast.symm.trans h)⟩
    have hinner : q.TakesSlash := ⟨bytes_ne_nil hne, hslash⟩
    rw [join_of_takesSlash houter hi, join_of_takesSlash hinner hi]
    simp

/-- A component written before others is a prefix. -/
theorem ofComponents_cons {c : Component} {cs : List Component} (hc : c.IsInner)
    (hne : cs ≠ []) (hroot : .root ∉ cs) :
    ofComponents (c :: cs) = ⟨c.bytes ++ slash :: (ofComponents cs).bytes⟩ := by
  have hbytes : (ofComponents cs).bytes = [slash].intercalate (cs.map Component.bytes) := by
    cases cs with
    | nil => rfl
    | cons d cs => cases d <;> simp_all [ofComponents]
  obtain ⟨d, cs, rfl⟩ := List.exists_cons_of_ne_nil hne
  have hcons : ofComponents (c :: d :: cs)
      = ⟨[slash].intercalate ((c :: d :: cs).map Component.bytes)⟩ := by
    rcases hc with rfl | ⟨name, -, rfl⟩ <;> rfl
  rw [hcons, hbytes]
  simp [List.intercalate_cons_cons]

end Path

open Unimported.Path

/-- The path of an index file is relative. -/
theorem isAbsolute_indexFile (extension : String) : (indexFile extension).isAbsolute = false := by
  have hencode : Utf8.encode ("index" ++ extension).toList
      = Utf8.encode "index".toList ++ Utf8.encode extension.toList := by
    rw [String.toList_append, Utf8.encode_append]
  show (⟨Utf8.encode ("index" ++ extension).toList⟩ : Path).isAbsolute = false
  rw [hencode]
  exact isAbsolute_bytes_append (by decide +kernel) (by decide +kernel) _

/-- Where the base of a reference gets a prefix, each of its variants does. -/
theorem candidatePaths_prefix {extensions : List String} {root dir specifier : Path}
    {root' dir' specifier' r : Path} (hr : r.TakesSlash)
    (hne : importBase root dir specifier ≠ Path.empty)
    (hrelative : (importBase root dir specifier).isAbsolute = false)
    (hbase : importBase root' dir' specifier' = r.join (importBase root dir specifier)) :
    candidatePaths extensions root' dir' specifier'
      = (candidatePaths extensions root dir specifier).map r.join := by
  have hne' : importBase root' dir' specifier' ≠ Path.empty := by
    rw [hbase, join_of_takesSlash hr hrelative]
    simp [Path.empty]
  -- Neither base is empty, so that the variants are made in the same way.
  unfold candidatePaths
  simp only
  rw [if_neg hne', if_neg hne, hbase]
  have happend : (fun e : String => (r.join (importBase root dir specifier)).append
        (Utf8.encode e.toList))
      = r.join ∘ fun e => (importBase root dir specifier).append (Utf8.encode e.toList) :=
    funext fun e => join_append hr hrelative hne _
  have hindex : (fun e : String => (r.join (importBase root dir specifier)).join (indexFile e))
      = r.join ∘ fun e => (importBase root dir specifier).join (indexFile e) :=
    funext fun e => join_join hr hrelative hne (isAbsolute_indexFile e)
  rw [happend, hindex, List.map_append, List.map_cons, List.map_map, List.map_map]

/-! ### Lookups with a prefix -/

/-- A slash between two paths is no step of its own. -/
theorem steps_join {r q : Path} (hr : r.TakesSlash) (hq : q.isAbsolute = false) :
    (r.join q).steps = r.steps ++ q.steps := by
  have hbytes : (r.join q).bytes = r.bytes ++ slash :: q.bytes := by
    rw [join_of_takesSlash hr hq]
  rw [Workspace.steps_of_bytes_append hbytes]

/-- A path with a prefix names what the path names in the directory to which the prefix
leads, as long as it is not too long. -/
theorem stat_prefix {t : FileTree} (hfree : t.LinkFree) {start place : Location} {r q : Path}
    (hr : r.TakesSlash) (hrelative : r.isAbsolute = false) (hzero : (0 : UInt8) ∉ r.bytes)
    (hstep : ∀ more, t.advance start (r.steps ++ more) = t.advance place more)
    (hq : q.isAbsolute = false) (hne : q ≠ Path.empty)
    (hshort : (r.join q).bytes.length < pathLimit) {loc : Location} {e : Entry} :
    (⟨t, start⟩ : Workspace).stat (r.join q) = .ok (loc, e) ↔
      (⟨t, place⟩ : Workspace).stat q = .ok (loc, e) := by
  have hbytes : (r.join q).bytes = r.bytes ++ slash :: q.bytes := by
    rw [join_of_takesSlash hr hq]
  have hlength : q.bytes.length < pathLimit := by
    rw [hbytes, List.length_append, List.length_cons] at hshort
    omega
  have hzero' : (0 : UInt8) ∉ (r.join q).bytes ↔ (0 : UInt8) ∉ q.bytes := by
    have hslash : (0 : UInt8) ≠ slash := by decide
    simp [hbytes, hzero, hslash]
  have hne' : r.join q ≠ Path.empty := by
    intro h
    rw [h] at hbytes
    simp [Path.empty] at hbytes
  -- Both lookups are walks along steps, and the first steps lead to `place`.
  rw [Workspace.stat_eq_ok_iff_advance hfree, Workspace.stat_eq_ok_iff_advance hfree, hzero',
    startFrom, startFrom, isAbsolute_join r q hq, hrelative, hq, steps_join hr hq]
  simp only [Bool.false_eq_true, if_false, hstep]
  simp [hshort, hlength, hne, hne']

/-- The same for the question whether anything is there. -/
theorem pathExists_prefix {t : FileTree} (hfree : t.LinkFree) {start place : Location}
    {r q : Path} (hr : r.TakesSlash) (hrelative : r.isAbsolute = false)
    (hzero : (0 : UInt8) ∉ r.bytes)
    (hstep : ∀ more, t.advance start (r.steps ++ more) = t.advance place more)
    (hq : q.isAbsolute = false) (hne : q ≠ Path.empty)
    (hshort : (r.join q).bytes.length < pathLimit) :
    (⟨t, start⟩ : Workspace).pathExists (r.join q) = (⟨t, place⟩ : Workspace).pathExists q := by
  rw [Bool.eq_iff_iff, Workspace.pathExists_iff, Workspace.pathExists_iff]
  exact exists_congr fun loc => exists_congr fun e =>
    stat_prefix hfree hr hrelative hzero hstep hq hne hshort

end Unimported
