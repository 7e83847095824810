import Unimported.Yaml.Cursor

/-!
# `Unimported.Yaml.Scalar`: the five ways to write a scalar

- `Scalar.quoted?` reads a text in single or double quotes.
- `Scalar.plain?` reads a text without quotes, which ends where something else begins.
- `Scalar.block?` reads an indented text, its line breaks kept or folded.

Each of them starts at the first character of the scalar and answers with the text and
the cursor behind it, or `none` if the text breaks a rule.
-/

set_option autoImplicit false

namespace Unimported.Yaml

/-- How a scalar is written. -/
inductive ScalarStyle where
  /-- Without quotes. -/
  | plain
  /-- In single quotes. -/
  | singleQuoted
  /-- In double quotes. -/
  | doubleQuoted
  /-- Indented, with its line breaks. -/
  | literal
  /-- Indented, with its lines joined. -/
  | folded
deriving DecidableEq, Repr

namespace Scalar

/-! ### Quoted text -/

/-- The character that a backslash makes of the one after it. -/
def escaped? : Char → Option Char
  | '0' => some '\x00'
  | 'a' => some '\x07'
  | 'b' => some '\x08'
  | 't' => some '\t'
  | '\t' => some '\t'
  | 'n' => some '\n'
  | 'v' => some '\x0b'
  | 'f' => some '\x0c'
  | 'r' => some '\r'
  | 'e' => some '\x1b'
  | ' ' => some ' '
  | '"' => some '"'
  | '/' => some '/'
  | '\\' => some '\\'
  | 'N' => some '\u0085'
  | '_' => some '\u00a0'
  | 'L' => some '\u2028'
  | 'P' => some '\u2029'
  | _ => none

/-- How many hexadecimal digits follow after a backslash and this character. -/
def digitCount? : Char → Option Nat
  | 'x' => some 2
  | 'u' => some 4
  | 'U' => some 8
  | _ => none

/-- The character of `count` hexadecimal digits at the start of a text. -/
def numbered? (count : Nat) (text : List Char) : Option Char :=
  let digits := text.take count
  if digits.length = count then
    match hexNumber? digits with
    | some n =>
      if (0xD800 ≤ n ∧ n ≤ 0xDFFF) ∨ 0x10FFFF < n then none else some (Char.ofNat n)
    | none => none
  else none

/-- Reads the character that an escape sequence stands for. The cursor is on the
backslash. -/
def escape? (c : Cursor) : Option (Char × Cursor) :=
  match c.rest with
  | _ :: letter :: digits =>
    match escaped? letter, digitCount? letter with
    | some ch, _ => some (ch, c.skip 2)
    | none, some count =>
      (numbered? count digits).map fun ch => (ch, c.skip (2 + count))
    | none, none => none
  | _ => none

/-- Reads a quoted text after its first quote. In single quotes a quote is written
twice, in double quotes a backslash starts an escape sequence, and one at the end of a
line takes the line break away. -/
def quotedWithin (double : Bool) : Nat → Cursor → Option (List Char × Cursor)
  | 0, _ => none
  | fuel + 1, c =>
    match c.rest with
    | [] => none
    | ch :: rest =>
      let goOn (text : List Char) (after : Cursor) : Option (List Char × Cursor) :=
        (quotedWithin double fuel after).map fun (more, last) => (text ++ more, last)
      if isGapChar ch then
        match c.gap 0 with
        | some (g, after) => if after.atDocumentMark then none else goOn g.folded after
        | none => none
      else if double then
        if ch = '"' then some ([], c.skip 1)
        else if ch = '\\' then
          if rest.head?.any isBreak then
            -- The first line break is gone; those of empty lines after it are kept.
            match (c.skip 1).skipBreak.gapAfterBreak with
            | some (g, after) => if after.atDocumentMark then none else goOn g.breaks after
            | none => none
          else
            match escape? c with
            | some (e, after) => goOn [e] after
            | none => none
        else goOn [ch] (c.skip 1)
      else if ch = '\'' then
        if rest.head? = some '\'' then goOn ['\''] (c.skip 2) else some ([], c.skip 1)
      else goOn [ch] (c.skip 1)

/-- Reads a quoted text. -/
def quoted? (double : Bool) (c : Cursor) : Option (List Char × Cursor) :=
  quotedWithin double (c.rest.length + 1) (c.skip 1)

/-! ### Plain text -/

/-- Whether a character separates the parts of a flow collection. -/
def isFlowMark (c : Char) : Bool :=
  c == ',' || c == '[' || c == ']' || c == '{' || c == '}'

/-- Reads a word of a plain scalar. A colon ends it where white space follows. In a flow
collection its marks end it too, and a colon may not stand right before one of them. -/
def wordWithin (flow : Bool) : Nat → Cursor → Option (List Char × Cursor)
  | 0, _ => none
  | fuel + 1, c =>
    match c.rest with
    | [] => some ([], c)
    | ch :: rest =>
      if isGapChar ch then some ([], c)
      else if flow && ch == ':' && rest.head?.any fun next => isFlowMark next || next == '?'
      then none
      else if (ch == ':' && c.gapAfter 1) || (flow && isFlowMark ch) then some ([], c)
      else (wordWithin flow fuel (c.skip 1)).map fun (word, after) => (ch :: word, after)

/-- What a plain scalar is read to. -/
structure Plain where
  /-- The text. -/
  text : List Char
  /-- Whether a line break follows it. -/
  broken : Bool
  /-- The cursor behind the scalar and the white space after it. -/
  after : Cursor

/-- Reads the words of a plain scalar, the first of which stands after `between`. -/
def plainWithin (flow : Bool) (indent : Nat) : Nat → Gap → Cursor → Option Plain
  | 0, _, _ => none
  | fuel + 1, between, c =>
    let ended : Plain := ⟨[], !between.breaks.isEmpty, c⟩
    if c.atDocumentMark || c.startsWith '#' then some ended
    else
      match wordWithin flow (c.rest.length + 1) c with
      | none => none
      | some ([], _) => some ended
      | some (word, after) =>
        let text := between.folded ++ word
        if after.rest.head?.any isGapChar then
          match after.gap indent with
          | none => none
          | some (g, next) =>
            -- A shallower line belongs to the collection around.
            if !flow && next.column < indent then
              some ⟨text, !g.breaks.isEmpty, next⟩
            else
              (plainWithin flow indent fuel g next).map fun more =>
                { more with text := text ++ more.text }
        else some ⟨text, false, after⟩

/-- Reads a plain scalar whose continuation lines have at least this indentation. -/
def plain? (flow : Bool) (indent : Nat) (c : Cursor) : Option Plain :=
  plainWithin flow indent (c.rest.length + 1) {} c

/-! ### Block text -/

/-- What is kept of the line breaks at the end of a block scalar. -/
inductive Chomping where
  /-- None of them. -/
  | strip
  /-- The first. -/
  | clip
  /-- All. -/
  | keep
deriving DecidableEq, Repr

/-- The chomping that a sign asks for. -/
def chomping? : Char → Option Chomping
  | '+' => some .keep
  | '-' => some .strip
  | _ => none

/-- The indentation that a digit asks for. -/
def increment? (c : Char) : Option Nat :=
  if c.isDigit then some (c.toNat - 48) else none

/-- Reads the sign and the digit of a block scalar, which may stand in either order. An
indentation of zero is refused. -/
def blockHeader? (c : Cursor) : Option (Chomping × Option Nat × Cursor) :=
  let checked (k : Chomping) (n : Option Nat) (after : Cursor) :
      Option (Chomping × Option Nat × Cursor) :=
    if n = some 0 then none else some (k, n, after)
  match c.head?.bind chomping? with
  | some k =>
    match (c.skip 1).head?.bind increment? with
    | some n => checked k (some n) (c.skip 2)
    | none => checked k none (c.skip 1)
  | none =>
    match c.head?.bind increment? with
    | some n =>
      match (c.skip 1).head?.bind chomping? with
      | some k => checked k (some n) (c.skip 2)
      | none => checked .clip (some n) (c.skip 1)
    | none => checked .clip none c

/-- The white space at the start of lines. -/
structure Margin where
  /-- What the line breaks of the empty lines stand for. -/
  breaks : List Char
  /-- The deepest column reached. -/
  deepest : Nat
  /-- The cursor behind the indentation of the first line that is not empty. -/
  after : Cursor

/-- Reads empty lines and the indentation of the line after them, spaces up to `indent`
if that is known. A tab may not stand in the indentation. -/
def marginWithin (indent : Option Nat) : Nat → Nat → Cursor → Option Margin
  | 0, _, _ => none
  | fuel + 1, deepest, c =>
    let spaces := (c.rest.takeWhile (· == ' ')).length
    let inside :=
      match indent with
      | some n => min spaces (n - c.column)
      | none => spaces
    let c := c.skip inside
    let deepest := max deepest c.column
    let inMargin :=
      match indent with
      | some n => c.column < n
      | none => true
    match c.rest with
    | [] => some ⟨[], deepest, c⟩
    | ch :: _ =>
      if inMargin && ch == '\t' then none
      else if isBreak ch then
        (marginWithin indent fuel deepest c.skipBreak).map fun m =>
          { m with breaks := Cursor.breakChar ch :: m.breaks }
      else some ⟨[], deepest, c⟩

/-- Reads empty lines and the indentation of the line after them. -/
def margin? (indent : Option Nat) (c : Cursor) : Option Margin :=
  marginWithin indent (c.rest.length + 1) 0 c

/-- The lines of a block scalar, read so far. -/
structure BlockLines where
  /-- The text, without the line breaks at its end. -/
  text : List Char
  /-- The line break after the last line, if it has one. -/
  lastBreak : List Char
  /-- The line breaks of the empty lines after it. -/
  trailing : List Char
  /-- The cursor behind the scalar. -/
  after : Cursor

/-- What joins a line of a folded scalar to the text before it: the line break becomes
a space, or vanishes before empty lines, unless one of the lines is indented further. -/
def lineJoint (literal : Bool) (lastBreak trailing : List Char)
    (leadingBlank trailingBlank : Bool) : List Char :=
  if !literal && lastBreak.head? == some '\n' && !leadingBlank && !trailingBlank then
    if trailing.isEmpty then [' '] else trailing
  else lastBreak ++ trailing

/-- Reads the lines of a block scalar. `leadingBlank` says whether the line before
starts with white space. -/
def blockLinesWithin (literal : Bool) (indent : Nat) :
    Nat → BlockLines → Bool → Option BlockLines
  | 0, _, _ => none
  | fuel + 1, b, leadingBlank =>
    let c := b.after
    match c.rest with
    | [] => some b
    | ch :: _ =>
      -- A shallower line ends the scalar; a deeper one cannot be at the cursor.
      if c.column ≠ indent then some b
      else
        let blank := isSpaceOrTab ch
        let joint := lineJoint literal b.lastBreak b.trailing leadingBlank blank
        let (line, lineEnd) := c.span fun ch => !isBreak ch
        let lastBreak := (lineEnd.rest.head?.map Cursor.breakChar).toList
        match margin? (some indent) lineEnd.skipBreak? with
        | none => none
        | some m =>
          blockLinesWithin literal indent fuel
            ⟨b.text ++ joint ++ line, lastBreak, m.breaks, m.after⟩ blank

/-- Reads a block scalar in a collection that is indented by `outer`, where none counts
as `-1`. -/
def block? (literal : Bool) (outer : Option Nat) (c : Cursor) :
    Option (List Char × Cursor) := do
  let (chomping, increment, c) ← blockHeader? (c.skip 1)
  let c := c.skipBlanks.skipComment
  if !c.atLineEnd then none
  let c := c.skipBreak?
  -- Without a digit the first line that is not empty gives the indentation.
  let known := increment.map fun n => outer.getD 0 + n
  let m ← margin? known c
  let least := match outer with
    | some n => n + 1
    | none => 1
  let indent := known.getD (max m.deepest least)
  let b ← blockLinesWithin literal indent (c.rest.length + 1) ⟨[], [], m.breaks, m.after⟩
    false
  let tail := match chomping with
    | .strip => []
    | .clip => b.lastBreak
    | .keep => b.lastBreak ++ b.trailing
  return (b.text ++ tail, b.after)

end Scalar

end Unimported.Yaml
