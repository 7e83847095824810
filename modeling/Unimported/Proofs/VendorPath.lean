import Mathlib.Data.List.Infix
import Unimported.Config.Basic
import Unimported.Proofs.Path.Respelling

/-!
# `Unimported.Proofs.VendorPath`: vendor directories and the spelling of a path

A vendor path is told by a text that stands anywhere in the path as it is shown, so it is
a question about bytes and not about components. Where the text has no slash, it has to
stand between two of them: an ASCII byte such as the slash is a character of its own
whatever bytes are around it, well formed or not. What is shown of a path is therefore
what is shown of its segments, one by one. The statements:

* `Utf8.decodeLossy_append_ascii`: bytes are read anew behind an ASCII byte.
* `isVendorPath_iff_of_slash_notMem`: a path is a vendor path by one of its segments.
* `isVendorPath_of_respells`: two spellings of a path are vendor paths alike.
* `isVendorPath_of_join`: above a path that is none there are no vendor paths, whatever the
  text is.
-/

set_option autoImplicit false

namespace Unimported

open Unimported.Path

namespace Utf8

/-! ### Reading behind an ASCII byte -/

/-- No ASCII byte belongs to a character under way. -/
def Pending.AsksHigh (pending : Option Pending) : Prop :=
  ∀ p, pending = some p → 0x80 ≤ p.low

/-- What a byte begins is not ended by an ASCII byte. -/
theorem asksHigh_lead (b : Nat) : Pending.AsksHigh (lead b) := by
  intro p hp
  unfold lead at hp
  grind

/-- The same holds of what is under way behind a first byte. -/
theorem asksHigh_start (b : Nat) : Pending.AsksHigh (start b).2 := by
  unfold start
  split
  · intro p hp
    cases hp
  · have hlead := asksHigh_lead b
    cases h : lead b with
    | none =>
      intro p hp
      cases hp
    | some q =>
      rw [h] at hlead
      exact hlead

/-- The same holds of what is under way behind every byte. -/
theorem asksHigh_step (pending : Option Pending) (b : Nat) :
    Pending.AsksHigh (step pending b).2 := by
  cases pending with
  | none => exact asksHigh_start b
  | some p =>
    simp only [step]
    split
    · split
      · intro q hq
        cases hq
      · intro q hq
        rw [← Option.some.inj hq]
    · exact asksHigh_start b

/-- Bytes are read anew behind an ASCII byte, which is a character of its own. -/
theorem unitsAfter_append_ascii {b : UInt8} (hb : b.toNat < 0x80) (back : List UInt8)
    {front : List UInt8} :
    ∀ {pending : Option Pending}, Pending.AsksHigh pending →
      unitsAfter pending (front ++ b :: back)
        = unitsAfter pending front ++ some (Char.ofNat b.toNat) :: units back := by
  have hstart : start b.toNat = ([some (Char.ofNat b.toNat)], none) := if_pos hb
  induction front with
  | nil =>
    intro pending hhigh
    cases pending with
    | none =>
      show (start b.toNat).1 ++ unitsAfter (start b.toNat).2 back = _
      rw [hstart]
      rfl
    | some p =>
      have hlow : 0x80 ≤ p.low := hhigh p rfl
      -- The byte does not go on with what is under way, which is cut off there.
      have hstep : step (some p) b.toNat = ([none, some (Char.ofNat b.toNat)], none) := by
        simp only [step]
        rw [if_neg (by omega), hstart]
      show (step (some p) b.toNat).1 ++ unitsAfter (step (some p) b.toNat).2 back = _
      rw [hstep]
      rfl
  | cons x front ih =>
    intro pending hhigh
    have hread : ∀ bytes, unitsAfter pending (x :: bytes)
        = (step pending x.toNat).1 ++ unitsAfter (step pending x.toNat).2 bytes := by
      intro bytes
      cases pending <;> rfl
    rw [List.cons_append, hread, hread, ih (asksHigh_step pending x.toNat), List.append_assoc]

/-- What is shown is cut at an ASCII byte, whether or not the bytes around it are well formed. -/
theorem decodeLossy_append_ascii {b : UInt8} (hb : b.toNat < 0x80) (front back : List UInt8) :
    decodeLossy (front ++ b :: back)
      = decodeLossy front ++ Char.ofNat b.toNat :: decodeLossy back := by
  have hnone : Pending.AsksHigh none := by
    intro p hp
    cases hp
  rw [decodeLossy, units, unitsAfter_append_ascii hb back hnone, List.map_append, List.map_cons]
  rfl

end Utf8

/-! ### Texts between separators -/

/-- A text that avoids a character is on the one side of it or on the other. -/
theorem infix_append_cons_iff {α : Type} {needle front back : List α} {sep : α}
    (h : sep ∉ needle) :
    needle <:+: front ++ sep :: back ↔ needle <:+: front ∨ needle <:+: back := by
  constructor
  · rintro ⟨before, after, heq⟩
    rcases List.append_eq_append_iff.mp heq with ⟨tail, hfront, -⟩ | ⟨tail, hneedle, hback⟩
    · exact Or.inl ⟨before, tail, hfront.symm⟩
    · cases tail with
      | nil => exact Or.inl ⟨before, [], by simpa using hneedle⟩
      | cons x tail =>
        obtain ⟨rfl, rfl⟩ := List.cons.inj hback
        -- The separator is in front of the text, since it is not in it.
        rcases List.append_eq_append_iff.mp hneedle with ⟨between, -, hin⟩ | ⟨between, -, hin⟩
        · exact absurd (by simp [hin]) h
        · cases between with
          | nil =>
            rw [List.nil_append] at hin
            exact absurd (hin ▸ List.mem_cons_self) h
          | cons y between =>
            obtain ⟨-, rfl⟩ := List.cons.inj hin
            exact Or.inr ⟨between, after, rfl⟩
  · rintro (⟨before, after, rfl⟩ | ⟨before, after, rfl⟩)
    · exact ⟨before, after ++ sep :: back, by simp⟩
    · exact ⟨front ++ sep :: before, after, by simp⟩

/-- A text without a slash stands in what is shown of bytes exactly if it stands in what
is shown of a part between two slashes. -/
theorem infix_decodeLossy_intercalate_iff {needle : List Char} (h : '/' ∉ needle)
    {parts : List (List UInt8)} (hne : parts ≠ []) :
    needle <:+: Utf8.decodeLossy ([slash].intercalate parts) ↔
      ∃ part ∈ parts, needle <:+: Utf8.decodeLossy part := by
  induction parts with
  | nil => exact absurd rfl hne
  | cons part parts ih =>
    rcases eq_or_ne parts [] with rfl | hmore
    · rw [List.intercalate_singleton]
      simp
    · have hslash : Char.ofNat slash.toNat = '/' := by decide
      rw [List.intercalate_cons_of_ne_nil hmore, List.append_assoc, List.singleton_append,
        Utf8.decodeLossy_append_ascii (by decide), hslash, infix_append_cons_iff h, ih hmore]
      simp

/-! ### Vendor paths -/

/-- A path is a vendor path by one of its active segments, if the text that marks vendor
directories has no slash and is not the `.` that stands in idle segments. -/
theorem isVendorPath_iff_of_slash_notMem {c : Config} (hslash : '/' ∉ c.vendorDir.toList)
    (hdot : c.vendorDir ≠ ".") {p : Path} :
    c.isVendorPath p = true ↔ c.vendorDir ≠ "" ∧
      ∃ segment ∈ p.activeSegments, c.vendorDir.toList <:+: Utf8.decodeLossy segment := by
  have hbytes : [slash].intercalate p.segments = p.bytes := List.intercalate_splitOn slash
  have hsegments : p.segments ≠ [] := List.splitOn_ne_nil slash p.bytes
  rw [Config.isVendorPath, Bool.and_eq_true, decide_eq_true_eq, isInfixOf_iff, chars, ← hbytes,
    infix_decodeLossy_intercalate_iff hslash hsegments, and_congr_right_iff]
  intro hne
  refine exists_congr fun segment => ?_
  rw [mem_activeSegments_iff, and_assoc, and_congr_right_iff]
  intro _
  -- What is shown of an idle segment is too short for the text.
  have hidle : c.vendorDir.toList <:+: Utf8.decodeLossy segment →
      segment ≠ [] ∧ segment ≠ [dot] := by
    intro hinfix
    constructor
    · rintro rfl
      have hnone : Utf8.decodeLossy [] = [] := rfl
      rw [hnone, List.infix_nil] at hinfix
      exact hne (String.toList_inj.mp hinfix)
    · rintro rfl
      have hone : Utf8.decodeLossy [dot] = ['.'] := by decide
      rw [hone, List.infix_singleton_iff] at hinfix
      rcases hinfix with hempty | hsame
      · exact hne (String.toList_inj.mp hempty)
      · exact hdot (String.toList_inj.mp hsame)
  exact ⟨fun hinfix => ⟨hidle hinfix, hinfix⟩, fun h => h.2⟩

/-- Two spellings of a path are vendor paths alike. -/
theorem isVendorPath_of_respells {c : Config} (hslash : '/' ∉ c.vendorDir.toList)
    (hdot : c.vendorDir ≠ ".") {p q : Path} (h : Respells p q) :
    c.isVendorPath p = c.isVendorPath q := by
  rw [Bool.eq_iff_iff, isVendorPath_iff_of_slash_notMem hslash hdot,
    isVendorPath_iff_of_slash_notMem hslash hdot, h.activeSegments]

/-! ### Above a path that is no vendor path -/

/-- What is shown of a path stays as it is when a path is joined to it. -/
theorem chars_prefix_join (p : Path) {q : Path} (hq : q.isAbsolute = false) :
    p.chars <+: (p.join q).chars := by
  -- The slash between the two paths ends whatever character was under way.
  have hslash : ∀ front back : List UInt8, Utf8.decodeLossy (front ++ slash :: back)
      = Utf8.decodeLossy front ++ Char.ofNat slash.toNat :: Utf8.decodeLossy back :=
    Utf8.decodeLossy_append_ascii (by decide)
  unfold chars
  rcases join_cases p q hq with ⟨hp, -⟩ | ⟨above, hp, hj⟩ | ⟨-, hj⟩
  · rw [hp]
    exact List.nil_prefix
  · have hnone : Utf8.decodeLossy [] = [] := rfl
    rw [hp, hj, hslash, hslash, hnone]
    exact ⟨Utf8.decodeLossy q.bytes, by simp⟩
  · rw [hj, hslash]
    exact List.prefix_append _ _

/-- A path is no vendor path if there is no such text, or the path does not show it. -/
theorem isVendorPath_eq_false_iff {c : Config} {p : Path} :
    c.isVendorPath p = false ↔ c.vendorDir = "" ∨ ¬c.vendorDir.toList <:+: p.chars := by
  rw [Config.isVendorPath, ← Bool.not_eq_true, Bool.and_eq_true, decide_eq_true_eq, isInfixOf_iff,
    not_and_or, not_not]

/-- A directory is no vendor directory if one below it is none. -/
theorem isVendorPath_of_join {c : Config} {p q : Path} (hq : q.isAbsolute = false)
    (h : c.isVendorPath (p.join q) = false) : c.isVendorPath p = false := by
  rw [isVendorPath_eq_false_iff] at h ⊢
  refine h.imp_right fun hbelow hinfix => hbelow ?_
  exact hinfix.trans (chars_prefix_join p hq).isInfix

end Unimported
