/-!
# `Unimported.Yaml.Cursor`: reading YAML text

A cursor is the text still to read with the line and column where it starts. YAML cares
for both: columns carry the structure of a document, and a key must end on its line.

- `Cursor.skip` and `Cursor.skipBreak` step over a character and a line break.
- `Cursor.gap` reads the white space inside a scalar, and `Gap.folded` is the text that
  it stands for.
- `isAllowed` says which characters a stream may have at all.
-/

set_option autoImplicit false

namespace Unimported.Yaml

/-! ### Characters -/

/-- Whether a character ends a line. -/
def isBreak (c : Char) : Bool :=
  c == '\n' || c == '\r' || c == '\u0085' || c == '\u2028' || c == '\u2029'

/-- Whether a character separates tokens on a line. -/
def isSpaceOrTab (c : Char) : Bool :=
  c == ' ' || c == '\t'

/-- Whether a character is white space in a document. -/
def isGapChar (c : Char) : Bool :=
  isSpaceOrTab c || isBreak c

/-- Whether a character can stand in the name of an anchor, a directive or a tag
handle. -/
def isWordChar (c : Char) : Bool :=
  c.isAlphanum || c == '_' || c == '-'

/-- Whether a character may occur in a stream. -/
def isAllowed (c : Char) : Bool :=
  let n := c.toNat
  n == 0x9 || n == 0xA || n == 0xD || (0x20 ≤ n && n ≤ 0x7E) || n == 0x85 ||
    (0xA0 ≤ n && n ≤ 0xD7FF) || (0xE000 ≤ n && n ≤ 0xFFFD) || 0x10000 ≤ n

/-- The value of a hexadecimal digit. -/
def hexValue? (c : Char) : Option Nat :=
  if '0' ≤ c ∧ c ≤ '9' then some (c.toNat - 48)
  else if 'a' ≤ c ∧ c ≤ 'f' then some (c.toNat - 87)
  else if 'A' ≤ c ∧ c ≤ 'F' then some (c.toNat - 55)
  else none

/-- The value of hexadecimal digits. -/
def hexNumber? (digits : List Char) : Option Nat :=
  digits.foldl (fun n d => do return (← n) * 16 + (← hexValue? d)) (some 0)

/-! ### The cursor -/

/-- A place in a text. -/
structure Cursor where
  /-- The text from here on. -/
  rest : List Char
  /-- How many characters are before it. -/
  index : Nat := 0
  /-- How many lines are before it. -/
  line : Nat := 0
  /-- How many characters of its line are before it. -/
  column : Nat := 0
deriving DecidableEq, Repr

namespace Cursor

/-- The character at the cursor. -/
def head? (c : Cursor) : Option Char :=
  c.rest.head?

/-- Whether the character at the cursor is `ch`. -/
def startsWith (c : Cursor) (ch : Char) : Bool :=
  c.rest.head? == some ch

/-- Whether white space, or the end, follows after `n` characters. -/
def gapAfter (c : Cursor) (n : Nat) : Bool :=
  match c.rest[n]? with
  | some ch => isGapChar ch
  | none => true

/-- Whether the line ends at the cursor. -/
def atLineEnd (c : Cursor) : Bool :=
  match c.rest with
  | ch :: _ => isBreak ch
  | [] => true

/-- Steps over some characters of the line. -/
def skip (c : Cursor) (n : Nat) : Cursor :=
  { c with rest := c.rest.drop n, index := c.index + n, column := c.column + n }

/-- Steps over a line break, which may have two characters. -/
def skipBreak (c : Cursor) : Cursor :=
  let width := if c.rest.take 2 = ['\r', '\n'] then 2 else 1
  { rest := c.rest.drop width, index := c.index + width, line := c.line + 1, column := 0 }

/-- Steps over a line break if there is one. -/
def skipBreak? (c : Cursor) : Cursor :=
  match c.rest with
  | ch :: _ => if isBreak ch then c.skipBreak else c
  | [] => c

/-- What a line break stands for in a scalar. -/
def breakChar (ch : Char) : Char :=
  if ch = '\u2028' ∨ ch = '\u2029' then ch else '\n'

/-- The characters of the line that are in a class, and the cursor after them. -/
def span (c : Cursor) (p : Char → Bool) : List Char × Cursor :=
  let run := c.rest.takeWhile p
  (run, c.skip run.length)

/-- The cursor after the spaces and tabs. -/
def skipBlanks (c : Cursor) : Cursor :=
  (c.span isSpaceOrTab).2

/-- The cursor after a comment, if there is one. -/
def skipComment (c : Cursor) : Cursor :=
  if c.startsWith '#' then (c.span fun ch => !isBreak ch).2 else c

/-- Whether the line starts here with a mark that separates documents. -/
def atDocumentMark (c : Cursor) : Bool :=
  c.column == 0 && (c.rest.take 3 == ['-', '-', '-'] || c.rest.take 3 == ['.', '.', '.'])
    && c.gapAfter 3

end Cursor

/-! ### White space inside scalars -/

/-- White space between two words of a scalar. -/
structure Gap where
  /-- The spaces and tabs before the first line break. -/
  blanks : List Char := []
  /-- What the line breaks stand for. -/
  breaks : List Char := []
deriving DecidableEq, Repr

namespace Gap

/-- The text that a gap stands for: on one line its blanks, across one line break a
space, and across more of them all but the first. -/
def folded (g : Gap) : List Char :=
  match g.breaks with
  | [] => g.blanks
  | '\n' :: [] => [' ']
  | '\n' :: more => more
  | all => all

end Gap

namespace Cursor

/-- Reads white space, of which a line break may have been read before. A tab may not
stand where the indentation asks for a space. -/
def gapWithin (indent : Nat) : Nat → Bool → Cursor → Option (Gap × Cursor)
  | 0, _, _ => none
  | fuel + 1, broken, c =>
    match c.rest with
    | [] => some ({}, c)
    | ch :: _ =>
      if isSpaceOrTab ch then
        if broken && ch == '\t' && c.column < indent then none
        else
          -- Blanks after a line break are indentation and stand for nothing.
          (gapWithin indent fuel broken (c.skip 1)).map fun (g, after) =>
            (if broken then g else { g with blanks := ch :: g.blanks }, after)
      else if isBreak ch then
        (gapWithin indent fuel true c.skipBreak).map fun (g, after) =>
          ({ g with breaks := breakChar ch :: g.breaks }, after)
      else some ({}, c)

/-- Reads white space up to the next word. -/
def gap (c : Cursor) (indent : Nat) : Option (Gap × Cursor) :=
  gapWithin indent (c.rest.length + 1) false c

/-- Reads white space up to the next word, where a line break has just been passed. -/
def gapAfterBreak (c : Cursor) : Option (Gap × Cursor) :=
  gapWithin 0 (c.rest.length + 1) true c

end Cursor

end Unimported.Yaml
