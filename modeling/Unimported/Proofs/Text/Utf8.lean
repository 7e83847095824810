import Mathlib.Data.List.Basic
import Unimported.Text.Utf8

/-!
# `Unimported.Proofs.Text.Utf8`: writing text and reading it back

Reading is a machine that is fed one byte after the other, and writing gives a character its
bytes at once. The two fit together because the ranges of the second byte are cut exactly
where a shorter form, a surrogate or a number that is too great would begin. The statements:

* `unitsAfter_encodeChar`: the bytes of a character are read as this character.
* `units_encode`, `decode_encode`, `decodeLossy_encode`: a text that is written is read back.
* `mem_bytes_of_mem_decodeLossy`: a character of ASCII is shown only where its byte stands,
  whether or not the bytes around it are well formed.
-/

set_option autoImplicit false

namespace Unimported.Utf8

/-! ### Reading what was written -/

/-- The numbers of characters. -/
theorem toNat_lt_or_between (c : Char) :
    c.toNat < 0xD800 ∨ (0xE000 ≤ c.toNat ∧ c.toNat < 0x110000) := by
  rcases c.valid with h | ⟨hlow, hhigh⟩
  · exact Or.inl h
  · exact Or.inr ⟨hlow, hhigh⟩

/-- Reading goes on byte by byte, with what the byte leaves under way. -/
theorem unitsAfter_cons (pending : Option Pending) (b : UInt8) (rest : List UInt8) :
    unitsAfter pending (b :: rest)
      = (step pending b.toNat).1 ++ unitsAfter (step pending b.toNat).2 rest := by
  cases pending <;> rfl

/-- A byte that the character under way asks for, and that is not its last one. -/
theorem step_inside {p : Pending} {b : Nat} (hb : p.low ≤ b ∧ b ≤ p.high)
    (hmissing : 1 < p.missing) :
    step (some p) b = ([], some ⟨p.value * 0x40 + (b - 0x80), p.missing - 1, 0x80, 0xBF⟩) := by
  simp only [step]
  rw [if_pos hb, if_neg (by omega)]

/-- A byte that the character under way asks for, and that is its last one. -/
theorem step_last {p : Pending} {b : Nat} (hb : p.low ≤ b ∧ b ≤ p.high) (hmissing : p.missing ≤ 1) :
    step (some p) b = ([some (Char.ofNat (p.value * 0x40 + (b - 0x80)))], none) := by
  simp only [step]
  rw [if_pos hb, if_pos hmissing]

/-- The first of two bytes. -/
theorem lead_two {n : Nat} (hlow : 0x80 ≤ n) (hhigh : n < 0x800) :
    lead (0xC0 + n / 0x40) = some ⟨n / 0x40, 1, 0x80, 0xBF⟩ := by
  unfold lead
  rw [if_pos (by omega), Nat.add_sub_cancel_left]

/-- The first of three bytes. No shorter form and no surrogate has the second byte that is
asked for. -/
theorem lead_three {n : Nat} (hlow : 0x800 ≤ n) (hhigh : n < 0x10000)
    (hrange : n < 0xD800 ∨ 0xE000 ≤ n) :
    ∃ low high, lead (0xE0 + n / 0x1000) = some ⟨n / 0x1000, 2, low, high⟩ ∧
      low ≤ 0x80 + n / 0x40 % 0x40 ∧ 0x80 + n / 0x40 % 0x40 ≤ high := by
  unfold lead
  rw [if_neg (by omega)]
  by_cases hzero : n / 0x1000 = 0
  · rw [if_pos (by omega), hzero]
    exact ⟨_, _, rfl, by omega, by omega⟩
  · rw [if_neg (by omega)]
    by_cases hthirteen : n / 0x1000 = 13
    · rw [if_pos (by omega), hthirteen]
      exact ⟨_, _, rfl, by omega, by omega⟩
    · rw [if_neg (by omega), if_pos (by omega), Nat.add_sub_cancel_left]
      exact ⟨_, _, rfl, by omega, by omega⟩

/-- The first of four bytes. No shorter form and no greater number has the second byte that
is asked for. -/
theorem lead_four {n : Nat} (hlow : 0x10000 ≤ n) (hhigh : n < 0x110000) :
    ∃ low high, lead (0xF0 + n / 0x40000) = some ⟨n / 0x40000, 3, low, high⟩ ∧
      low ≤ 0x80 + n / 0x1000 % 0x40 ∧ 0x80 + n / 0x1000 % 0x40 ≤ high := by
  unfold lead
  rw [if_neg (by omega), if_neg (by omega), if_neg (by omega), if_neg (by omega)]
  by_cases hzero : n / 0x40000 = 0
  · rw [if_pos (by omega), hzero]
    exact ⟨_, _, rfl, by omega, by omega⟩
  · rw [if_neg (by omega)]
    by_cases hfour : n / 0x40000 = 4
    · rw [if_neg (by omega), if_pos (by omega), hfour]
      exact ⟨_, _, rfl, by omega, by omega⟩
    · rw [if_pos (by omega), Nat.add_sub_cancel_left]
      exact ⟨_, _, rfl, by omega, by omega⟩

/-- A byte that begins a character gives none yet. -/
theorem step_start {b : Nat} {p : Pending} (h : lead b = some p) (hb : 0x80 ≤ b) :
    step none b = ([], some p) := by
  simp only [step, start]
  rw [if_neg (by omega), h]

/-- The bytes of a character are read as this character. -/
theorem unitsAfter_encodeChar (c : Char) (rest : List UInt8) :
    unitsAfter none (encodeChar c ++ rest) = some c :: unitsAfter none rest := by
  have hrange := toNat_lt_or_between c
  have hc : ∀ m : Nat, m = c.toNat → Char.ofNat m = c := fun m hm => hm ▸ Char.ofNat_toNat c
  have hbyte : ∀ b : Nat, b < 256 → b.toUInt8.toNat = b := fun b hb => UInt8.toNat_ofNat_of_lt' hb
  unfold encodeChar
  generalize c.toNat = n at hrange hc
  simp only
  -- One case for each number of bytes. All arithmetic is about the number of the character.
  split
  · rename_i hascii
    rw [List.singleton_append, unitsAfter_cons, hbyte n (by omega)]
    simp only [step, start]
    rw [if_pos hascii, hc n rfl]
    rfl
  · split
    · have hlead := lead_two (n := n) (by omega) (by omega)
      simp only [List.cons_append, List.nil_append]
      rw [unitsAfter_cons, hbyte _ (by omega), step_start hlead (by omega), unitsAfter_cons,
        hbyte _ (by omega), step_last (by simp only; omega) (by simp only; omega),
        hc _ (by simp only; omega)]
      rfl
    · split
      · obtain ⟨low, high, hlead, hsecond⟩ := lead_three (n := n) (by omega) (by omega) (by omega)
        simp only [List.cons_append, List.nil_append]
        rw [unitsAfter_cons, hbyte _ (by omega), step_start hlead (by omega), unitsAfter_cons,
          hbyte _ (by omega), step_inside hsecond (by simp only; omega), unitsAfter_cons,
          hbyte _ (by omega), step_last (by simp only; omega) (by simp only; omega),
          hc _ (by simp only; omega)]
        rfl
      · obtain ⟨low, high, hlead, hsecond⟩ := lead_four (n := n) (by omega) (by omega)
        simp only [List.cons_append, List.nil_append]
        rw [unitsAfter_cons, hbyte _ (by omega), step_start hlead (by omega), unitsAfter_cons,
          hbyte _ (by omega), step_inside hsecond (by simp only; omega), unitsAfter_cons,
          hbyte _ (by omega), step_inside (by simp only; omega) (by simp only; omega),
          unitsAfter_cons,
          hbyte _ (by omega), step_last (by simp only; omega) (by simp only; omega),
          hc _ (by simp only; omega)]
        rfl

/-- A text that is written is read as its characters, with no ill-formed part. -/
theorem units_encode (text : List Char) : units (encode text) = text.map some := by
  unfold units encode
  induction text with
  | nil => rfl
  | cons c text ih => rw [List.flatMap_cons, unitsAfter_encodeChar, ih, List.map_cons]

/-- A text that is written is shown as it is. -/
theorem decodeLossy_encode (text : List Char) : decodeLossy (encode text) = text := by
  rw [decodeLossy, units_encode, List.map_map]
  exact List.map_id text

/-- A text that is written is well formed. -/
theorem decode_encode (text : List Char) : decode (encode text) = some text := by
  rw [decode, units_encode]
  induction text with
  | nil => rfl
  | cons c text ih => rw [List.map_cons, allChars, ih, Option.map_some]

/-- A text is told by its bytes. -/
theorem encode_injective : Function.Injective encode := by
  intro text text' h
  rw [← decodeLossy_encode text, h, decodeLossy_encode]

/-! ### Characters of ASCII -/

/-- What is under way becomes a character beyond ASCII, if it becomes one at all. -/
def Pending.IsBeyondAscii (pending : Option Pending) : Prop :=
  ∀ p, pending = some p →
    (p.missing ≤ 1 → 2 ≤ p.value) ∧ (1 < p.missing → 1 ≤ p.value ∨ 0x90 ≤ p.low)

/-- Nothing is under way at the start. -/
theorem isBeyondAscii_none : Pending.IsBeyondAscii none := by
  intro p hp
  cases hp

/-- What a byte begins is a character beyond ASCII. -/
theorem isBeyondAscii_lead (b : Nat) : Pending.IsBeyondAscii (lead b) := by
  intro p hp
  unfold lead at hp
  grind

/-- A character of ASCII that `start` completes is the byte. -/
theorem start_cases (b : Nat) :
    (b < 0x80 ∧ start b = ([some (Char.ofNat b)], none)) ∨
      ((start b).1 = [] ∨ (start b).1 = [none]) ∧ Pending.IsBeyondAscii (start b).2 := by
  unfold start
  split
  · rename_i hascii
    exact Or.inl ⟨hascii, rfl⟩
  · right
    have hlead := isBeyondAscii_lead b
    cases h : lead b with
    | none => exact ⟨Or.inr rfl, isBeyondAscii_none⟩
    | some p =>
      rw [h] at hlead
      exact ⟨Or.inl rfl, hlead⟩

/-- A character has the number that it is made of. -/
theorem toNat_ofNat {n : Nat} (h : n.isValidChar) : (Char.ofNat n).toNat = n := by
  rw [Char.ofNat, dif_pos h]
  rfl

/-- Numbers beyond ASCII are no characters of ASCII; those that are no character at all stand
for zero. -/
theorem ofNat_ne_of_ascii {c : Char} (hascii : c.toNat < 0x80) (hzero : c.toNat ≠ 0) {n : Nat}
    (hn : 0x80 ≤ n) : Char.ofNat n ≠ c := by
  rintro rfl
  by_cases h : n.isValidChar
  · rw [toNat_ofNat h] at hascii
    omega
  · rw [Char.ofNat, dif_neg h] at hzero
    exact hzero rfl

/-- What one byte does: a character of ASCII that it completes is the byte itself. -/
theorem step_beyondAscii {c : Char} (hascii : c.toNat < 0x80) (hzero : c.toNat ≠ 0)
    {pending : Option Pending} (h : Pending.IsBeyondAscii pending) (b : Nat) :
    (some c ∈ (step pending b).1 → c = Char.ofNat b ∧ b < 0x80) ∧
      Pending.IsBeyondAscii (step pending b).2 := by
  -- A byte that does not go on with what is under way is read as the first one of a character.
  have hstart : (some c ∈ (start b).1 → c = Char.ofNat b ∧ b < 0x80) ∧
      Pending.IsBeyondAscii (start b).2 := by
    rcases start_cases b with ⟨hb, heq⟩ | ⟨hnone | hnone, hbeyond⟩
    · rw [heq]
      exact ⟨fun hmem => ⟨Option.some.inj (List.mem_singleton.mp hmem), hb⟩, isBeyondAscii_none⟩
    · rw [hnone]
      exact ⟨fun hmem => absurd hmem List.not_mem_nil, hbeyond⟩
    · rw [hnone]
      exact ⟨fun hmem => by simp at hmem, hbeyond⟩
  cases pending with
  | none => exact hstart
  | some p =>
    obtain ⟨hlast, hinside⟩ := h p rfl
    by_cases hrange : p.low ≤ b ∧ b ≤ p.high
    · by_cases hmissing : p.missing ≤ 1
      · rw [step_last hrange hmissing]
        refine ⟨fun hmem => ?_, isBeyondAscii_none⟩
        have hvalue := hlast hmissing
        exact absurd (Option.some.inj (List.mem_singleton.mp hmem)).symm
          (ofNat_ne_of_ascii hascii hzero (by omega))
      · rw [step_inside hrange (by omega)]
        refine ⟨fun hmem => absurd hmem List.not_mem_nil, ?_⟩
        rintro q hq
        obtain rfl := Option.some.inj hq
        have hvalue := hinside (by omega)
        simp only
        omega
    · have hstep : step (some p) b = (none :: (start b).1, (start b).2) := by
        simp only [step]
        rw [if_neg hrange]
      rw [hstep]
      refine ⟨fun hmem => hstart.1 ?_, hstart.2⟩
      simpa using hmem

/-- A character of ASCII is read only where its byte stands. -/
theorem mem_of_mem_unitsAfter {c : Char} (hascii : c.toNat < 0x80) (hzero : c.toNat ≠ 0)
    {bytes : List UInt8} {pending : Option Pending} (h : Pending.IsBeyondAscii pending)
    (hmem : some c ∈ unitsAfter pending bytes) : c.toNat.toUInt8 ∈ bytes := by
  induction bytes generalizing pending with
  | nil => cases pending <;> simp [unitsAfter] at hmem
  | cons b rest ih =>
    obtain ⟨hcomplete, hnext⟩ := step_beyondAscii hascii hzero h b.toNat
    rw [unitsAfter_cons] at hmem
    rcases List.mem_append.mp hmem with hmem | hmem
    · obtain ⟨rfl, hb⟩ := hcomplete hmem
      have hvalid : b.toNat.isValidChar := Or.inl (by omega)
      rw [toNat_ofNat hvalid, Nat.toUInt8_eq, UInt8.ofNat_toNat]
      exact List.mem_cons_self
    · exact List.mem_cons_of_mem b (ih hnext hmem)

/-- A character of ASCII is shown only where its byte stands, whether or not the bytes are well
formed. -/
theorem mem_bytes_of_mem_decodeLossy {c : Char} (hascii : c.toNat < 0x80) (hzero : c.toNat ≠ 0)
    {bytes : List UInt8} (h : c ∈ decodeLossy bytes) : c.toNat.toUInt8 ∈ bytes := by
  obtain ⟨u, hu, hc⟩ := List.mem_map.mp h
  refine mem_of_mem_unitsAfter hascii hzero isBeyondAscii_none ?_
  cases u with
  | none =>
    subst hc
    exact absurd hascii (by decide)
  | some d =>
    obtain rfl : d = c := hc
    exact hu

end Unimported.Utf8
