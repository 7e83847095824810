/-!
# `Unimported.Text.Utf8`: bytes and characters

File names and file contents are bytes, while specifiers, extensions and reports
are text. This module converts between the two.

- `encode` writes characters as UTF-8.
- `units` reads bytes one by one. It gives a character for each well-formed
  sequence and `none` for each maximal part of an ill-formed one.
- `decode` accepts only bytes without an ill-formed part. `decodeLossy` accepts
  all bytes and puts `U+FFFD` in the place of each ill-formed part.

`decode` and `decodeLossy` read through the same `units`, so they cannot disagree
about where a character starts.
-/

set_option autoImplicit false

namespace Unimported.Utf8

/-! ### Writing -/

/-- The bytes of one character, shortest form. -/
def encodeChar (c : Char) : List UInt8 :=
  let n := c.toNat
  if n < 0x80 then
    [n.toUInt8]
  else if n < 0x800 then
    [(0xC0 + n / 0x40).toUInt8, (0x80 + n % 0x40).toUInt8]
  else if n < 0x10000 then
    [(0xE0 + n / 0x1000).toUInt8, (0x80 + n / 0x40 % 0x40).toUInt8,
      (0x80 + n % 0x40).toUInt8]
  else
    [(0xF0 + n / 0x40000).toUInt8, (0x80 + n / 0x1000 % 0x40).toUInt8,
      (0x80 + n / 0x40 % 0x40).toUInt8, (0x80 + n % 0x40).toUInt8]

/-- The bytes of a text. -/
def encode (text : List Char) : List UInt8 :=
  text.flatMap encodeChar

/-! ### Reading -/

/-- A character under way: the value so far, how many bytes are still to come, and
the range that the next of them must lie in. Only the second byte of a sequence has
a range narrower than `80..BF`: that is what excludes long forms, surrogates and
values above `10FFFF`. -/
structure Pending where
  /-- The bits read so far. -/
  value : Nat
  /-- How many bytes are still to come, the next one included. -/
  missing : Nat
  /-- The least next byte. -/
  low : Nat
  /-- The greatest next byte. -/
  high : Nat
deriving DecidableEq, Repr

/-- What a byte of `80` or more begins, if it begins anything. -/
def lead (b : Nat) : Option Pending :=
  if 0xC2 ≤ b ∧ b ≤ 0xDF then some ⟨b - 0xC0, 1, 0x80, 0xBF⟩
  else if b = 0xE0 then some ⟨0, 2, 0xA0, 0xBF⟩
  -- What follows here would be a surrogate from `A0` on.
  else if b = 0xED then some ⟨13, 2, 0x80, 0x9F⟩
  else if 0xE1 ≤ b ∧ b ≤ 0xEF then some ⟨b - 0xE0, 2, 0x80, 0xBF⟩
  else if b = 0xF0 then some ⟨0, 3, 0x90, 0xBF⟩
  else if 0xF1 ≤ b ∧ b ≤ 0xF3 then some ⟨b - 0xF0, 3, 0x80, 0xBF⟩
  else if b = 0xF4 then some ⟨4, 3, 0x80, 0x8F⟩
  else none

/-- Reads a byte where no character is under way: what it completes, and what it
leaves under way. -/
def start (b : Nat) : List (Option Char) × Option Pending :=
  if b < 0x80 then ([some (Char.ofNat b)], none)
  else match lead b with
    | some p => ([], some p)
    | none => ([none], none)

/-- Reads a byte. A byte outside the range that the character under way asks for
ends it as ill-formed and is then read afresh. -/
def step (pending : Option Pending) (b : Nat) : List (Option Char) × Option Pending :=
  match pending with
  | none => start b
  | some p =>
    if p.low ≤ b ∧ b ≤ p.high then
      let value := p.value * 0x40 + (b - 0x80)
      if p.missing ≤ 1 then ([some (Char.ofNat value)], none)
      else ([], some ⟨value, p.missing - 1, 0x80, 0xBF⟩)
    else
      -- The byte does not belong to the ill-formed part.
      (none :: (start b).1, (start b).2)

/-- The characters of a byte string that follows `pending`, with `none` for each
maximal part that is not well formed. -/
def unitsAfter : Option Pending → List UInt8 → List (Option Char)
  | none, [] => []
  | some _, [] => [none]
  | pending, b :: rest =>
    (step pending b.toNat).1 ++ unitsAfter (step pending b.toNat).2 rest

/-- The characters of a byte string, with `none` for each maximal part that is not
well formed. -/
def units (bytes : List UInt8) : List (Option Char) :=
  unitsAfter none bytes

/-- All of `units`, if each of them is a character. -/
def allChars : List (Option Char) → Option (List Char)
  | [] => some []
  | none :: _ => none
  | some c :: rest => (allChars rest).map (c :: ·)

/-- The text that the bytes encode, if they are well formed throughout. -/
def decode (bytes : List UInt8) : Option (List Char) :=
  allChars (units bytes)

/-- The text that the bytes show, with `U+FFFD` for each ill-formed part. -/
def decodeLossy (bytes : List UInt8) : List Char :=
  (units bytes).map (·.getD '\uFFFD')

end Unimported.Utf8
