import Unimported.Text.Utf8
import Unimported.Yaml.Scalar

/-!
# `Unimported.Yaml.Token`: the tokens of a YAML stream

Indentation is structure: a deeper column opens a block collection, and a shallower
one closes it. A key shows only by the colon after it, so its token is put in late, in
front of tokens that have been read already.

- `Token` are the marks, names and scalars of a stream, with marks of their own where
  block collections open and close.
- `Scanner.next?` reads one token, with what opens and closes before it.
- `tokens?` are the tokens of a text, or `none` if it breaks a rule.
-/

set_option autoImplicit false

namespace Unimported.Yaml

/-- A token of a stream. -/
inductive Token where
  /-- The directive with the version of YAML. -/
  | version (major minor : Nat)
  /-- The directive that says what a tag handle stands for. -/
  | tagDirective (handle expansion : List Char)
  /-- `---` -/
  | documentStart
  /-- `...` -/
  | documentEnd
  /-- The start of a block sequence. -/
  | blockSequenceStart
  /-- The start of a block mapping. -/
  | blockMappingStart
  /-- The end of a block collection. -/
  | blockEnd
  /-- `[` -/
  | flowSequenceStart
  /-- `]` -/
  | flowSequenceEnd
  /-- `{` -/
  | flowMappingStart
  /-- `}` -/
  | flowMappingEnd
  /-- `-` before an item. -/
  | blockEntry
  /-- `,` -/
  | flowEntry
  /-- What comes before a key, `?` or nothing. -/
  | key
  /-- `:` -/
  | value
  /-- `*` and a name. -/
  | alias (name : List Char)
  /-- `&` and a name. -/
  | anchor (name : List Char)
  /-- A tag: what its handle stands for is still open. -/
  | tag (handle suffix : List Char)
  /-- A scalar. -/
  | scalar (style : ScalarStyle) (text : List Char)
deriving DecidableEq, Repr

/-- A token that turns out to be the start of a key if a colon follows. -/
structure KeyCandidate where
  /-- How many tokens are before it. -/
  position : Nat
  /-- Whether nothing but a key can stand there. -/
  required : Bool
  /-- The cursor at its start. -/
  start : Cursor
deriving DecidableEq, Repr

/-- How far a stream has been read. -/
structure Scanner where
  /-- The text still to read. -/
  cursor : Cursor
  /-- The tokens read so far. -/
  tokens : List Token := []
  /-- The columns of the open block collections, the innermost first. -/
  indents : List Nat := []
  /-- For each open flow collection, the innermost first, and last for the block around
  them: the token there that may start a key. -/
  keys : List (Option KeyCandidate) := [none]
  /-- Whether a key may start here. -/
  keyAllowed : Bool := true
deriving DecidableEq, Repr

namespace Scanner

/-- Whether a flow collection is open. -/
def inFlow (s : Scanner) : Bool :=
  1 < s.keys.length

/-- The column of the innermost block collection. -/
def indent? (s : Scanner) : Option Nat :=
  s.indents.head?

/-- The scanner with one more token. -/
def push (s : Scanner) (t : Token) : Scanner :=
  { s with tokens := s.tokens ++ [t] }

/-- The scanner with its cursor after `n` more characters. -/
def skip (s : Scanner) (n : Nat) : Scanner :=
  { s with cursor := s.cursor.skip n }

/-- The scanner with this word on whether a key may start. -/
def allowKey (s : Scanner) (allowed : Bool) : Scanner :=
  { s with keyAllowed := allowed }

/-! ### Indentation -/

/-- Closes the block collections that are deeper than a column; without a column, all of
them. In a flow collection indentation means nothing. -/
def unroll (s : Scanner) (column : Option Nat) : Scanner :=
  if s.inFlow then s
  else
    let deeper := s.indents.takeWhile fun i =>
      match column with
      | some c => c < i
      | none => true
    { s with
      tokens := s.tokens ++ deeper.map fun _ => .blockEnd
      indents := s.indents.drop deeper.length }

/-- Opens a block collection at a column that is deeper than the ones open, with its
token after the first `position` tokens. -/
def roll (s : Scanner) (column position : Nat) (opening : Token) : Scanner :=
  if s.inFlow then s
  else if s.indent?.all fun i => i < column then
    { s with
      tokens := s.tokens.take position ++ opening :: s.tokens.drop position
      indents := column :: s.indents }
  else s

/-- Opens a block collection at the cursor. -/
def rollHere (s : Scanner) (opening : Token) : Scanner :=
  s.roll s.cursor.column s.tokens.length opening

/-! ### Keys -/

/-- Gives up the token that may start a key in the innermost collection. -/
def dropKey? (s : Scanner) : Option Scanner :=
  match s.keys with
  | some k :: rest => if k.required then none else some { s with keys := none :: rest }
  | _ => some s

/-- Notes that the next token may start a key. -/
def noteKey? (s : Scanner) : Option Scanner :=
  if s.keyAllowed then do
    let s ← s.dropKey?
    let k : KeyCandidate := {
      position := s.tokens.length
      required := !s.inFlow && s.indent? == some s.cursor.column
      start := s.cursor }
    return { s with keys := some k :: s.keys.drop 1 }
  else some s

/-- How far behind the start of a key its colon may be, in characters. -/
def longestKey : Nat := 1024

/-- Whether the start of a key is out of reach: on another line, or too far back. -/
def isStale (c : Cursor) (k : KeyCandidate) : Bool :=
  k.start.line < c.line || k.start.index + longestKey < c.index

/-- Gives up the tokens that may start a key and are out of reach. -/
def dropStale? (s : Scanner) : Option Scanner :=
  let stale := fun k : Option KeyCandidate => k.any (isStale s.cursor)
  if s.keys.any fun k => stale k && k.any (·.required) then none
  else some { s with keys := s.keys.map fun k => if stale k then none else k }

/-! ### White space and comments -/

/-- Steps over white space and comments. A line break in a block lets a key start; a tab
is white space only where no key could start. A mark of the byte order at the start of a
line is passed over, but has a column of its own. -/
def skipGapsWithin : Nat → Scanner → Scanner
  | 0, s => s
  | fuel + 1, s =>
    let c := s.cursor
    -- The mark counts as a character of its line.
    let c := if c.column = 0 ∧ c.head? = some '\ufeff' then c.skip 1 else c
    let c := (c.span fun ch =>
      ch == ' ' || ((s.inFlow || !s.keyAllowed) && ch == '\t')).2
    let c := c.skipComment
    match c.rest with
    | [] => { s with cursor := c }
    | ch :: _ =>
      if isBreak ch then
        skipGapsWithin fuel
          { s with cursor := c.skipBreak, keyAllowed := s.keyAllowed || !s.inFlow }
      else { s with cursor := c }

/-- Steps over white space and comments. -/
def skipGaps (s : Scanner) : Scanner :=
  skipGapsWithin (s.cursor.rest.length + 1) s

/-! ### Directives and document marks -/

/-- The greatest number of digits in a version. -/
def longestVersion : Nat := 9

/-- Reads a number of a version. -/
def versionNumber? (c : Cursor) : Option (Nat × Cursor) :=
  let (digits, after) := c.span Char.isDigit
  if digits.isEmpty || longestVersion < digits.length then none
  else some (digits.foldl (fun n d => n * 10 + (d.toNat - 48)) 0, after)

/-- Reads the handle of a tag: a word between exclamation marks. In a directive it must
be complete; elsewhere the second mark may be missing, and then the word belongs to the
tag. -/
def tagHandle? (directive : Bool) (c : Cursor) : Option (List Char × Cursor) :=
  if c.startsWith '!' then
    let (word, after) := (c.skip 1).span isWordChar
    if after.startsWith '!' then some ('!' :: word ++ ['!'], after.skip 1)
    else if directive && !word.isEmpty then none
    else some ('!' :: word, after)
  else none

/-- Whether a character can stand in the body of a tag. Commas and brackets can do so
only between angle brackets. -/
def isTagChar (verbatim : Bool) (c : Char) : Bool :=
  isWordChar c || ";/?:@&=+$.%!~*'()".toList.contains c ||
    (verbatim && (c == ',' || c == '[' || c == ']'))

/-- The length of the UTF-8 sequence that an octet starts. -/
def sequenceLength? (octet : Nat) : Option Nat :=
  if octet < 0x80 then some 1
  else if 0xC0 ≤ octet ∧ octet < 0xE0 then some 2
  else if 0xE0 ≤ octet ∧ octet < 0xF0 then some 3
  else if 0xF0 ≤ octet ∧ octet < 0xF8 then some 4
  else none

/-- The octet that a percent sign and two digits at the start of a text stand for. -/
def octet? : List Char → Option Nat
  | '%' :: a :: b :: _ => hexNumber? [a, b]
  | _ => none

/-- Reads the octets after the first one of a sequence. -/
def octetsAfter? : Nat → Cursor → Option (List UInt8 × Cursor)
  | 0, c => some ([], c)
  | missing + 1, c =>
    match octet? c.rest with
    | some o =>
      if 0x80 ≤ o ∧ o < 0xC0 then
        (octetsAfter? missing (c.skip 3)).map fun (more, after) => (o.toUInt8 :: more, after)
      else none
    | none => none

/-- Reads a character that is written as octets. Octets of the right form that are no
character all the same are read as a character that no tag with a meaning has. -/
def octets? (c : Cursor) : Option (List Char × Cursor) := do
  let first ← octet? c.rest
  let width ← sequenceLength? first
  let (more, after) ← octetsAfter? (width - 1) (c.skip 3)
  return (Utf8.decodeLossy (first.toUInt8 :: more), after)

/-- Reads the body of a tag. -/
def tagBodyWithin (verbatim : Bool) : Nat → Cursor → Option (List Char × Cursor)
  | 0, _ => none
  | fuel + 1, c =>
    match c.rest with
    | [] => some ([], c)
    | ch :: _ =>
      if isTagChar verbatim ch then do
        let (read, next) ← if ch = '%' then octets? c else some ([ch], c.skip 1)
        let (more, after) ← tagBodyWithin verbatim fuel next
        return (read ++ more, after)
      else some ([], c)

/-- Reads the body of a tag, as far as its characters go. -/
def tagBody? (verbatim : Bool) (c : Cursor) : Option (List Char × Cursor) :=
  tagBodyWithin verbatim (c.rest.length + 1) c

/-- The part of a body in front of a zero character, which ends it. -/
def beforeZero (body : List Char) : List Char :=
  body.takeWhile (· ≠ Char.ofNat 0)

/-- Reads a directive after its percent sign. -/
def directive? (c : Cursor) : Option (Token × Cursor) := do
  let (name, c) := c.span isWordChar
  if !c.gapAfter 0 then none
  let c := c.skipBlanks
  if name = "YAML".toList then
    let (major, c) ← versionNumber? c
    if !c.startsWith '.' then none
    let (minor, c) ← versionNumber? (c.skip 1)
    return (.version major minor, c)
  else if name = "TAG".toList then
    let (handle, c) ← tagHandle? true c
    if !c.head?.any isSpaceOrTab then none
    let (expansion, c) ← tagBody? true c.skipBlanks
    if expansion.isEmpty || !c.gapAfter 0 then none
    return (.tagDirective handle (beforeZero expansion), c)
  else none

/-- Closes everything before a directive, a document mark or the end of the stream. -/
def closeAll? (s : Scanner) : Option Scanner := do
  return (← (s.unroll none).dropKey?).allowKey false

/-- Reads a directive with its line. -/
def fetchDirective? (s : Scanner) : Option Scanner := do
  let s ← s.closeAll?
  let (t, c) ← directive? (s.cursor.skip 1)
  let c := c.skipBlanks.skipComment
  if !c.atLineEnd then none
  return { s.push t with cursor := c.skipBreak? }

/-- Reads a document mark. -/
def fetchDocumentMark? (s : Scanner) (t : Token) : Option Scanner := do
  return ((← s.closeAll?).push t).skip 3

/-! ### Marks of collections -/

/-- Reads the start of a flow collection. -/
def fetchFlowStart? (s : Scanner) (t : Token) : Option Scanner := do
  let s ← s.noteKey?
  return (({ s with keys := none :: s.keys }.allowKey true).push t).skip 1

/-- Reads the end of a flow collection. -/
def fetchFlowEnd? (s : Scanner) (t : Token) : Option Scanner := do
  let s ← s.dropKey?
  let s := if s.inFlow then { s with keys := s.keys.drop 1 } else s
  return ((s.allowKey false).push t).skip 1

/-- Reads the comma of a flow collection. -/
def fetchFlowEntry? (s : Scanner) : Option Scanner := do
  return (((← s.dropKey?).allowKey true).push .flowEntry).skip 1

/-- Reads the dash of an item. -/
def fetchBlockEntry? (s : Scanner) : Option Scanner := do
  if !s.inFlow && !s.keyAllowed then none
  let s ← (s.rollHere .blockSequenceStart).dropKey?
  return ((s.allowKey true).push .blockEntry).skip 1

/-- Reads the question mark of a key. -/
def fetchKey? (s : Scanner) : Option Scanner := do
  if !s.inFlow && !s.keyAllowed then none
  let s ← (s.rollHere .blockMappingStart).dropKey?
  return ((s.allowKey !s.inFlow).push .key).skip 1

/-- Reads the colon of a value. If the token noted before it may start a key, it does. -/
def fetchValue? (s : Scanner) : Option Scanner :=
  match s.keys with
  | some k :: rest =>
    -- The key has been read already: its token, and maybe the start of its mapping, go in
    -- front of it.
    let keyed := { s with
      tokens := s.tokens.take k.position ++ Token.key :: s.tokens.drop k.position
      keys := none :: rest }
    let rolled := keyed.roll k.start.column k.position .blockMappingStart
    some (((rolled.allowKey false).push .value).skip 1)
  | _ =>
    -- The value has an empty key, or one that a question mark has announced.
    if !s.inFlow && !s.keyAllowed then none
    else
      let s := s.rollHere .blockMappingStart
      some (((s.allowKey !s.inFlow).push .value).skip 1)

/-! ### Names, tags and scalars -/

/-- Whether an anchor or alias can end at the cursor. -/
def endsAnchor (c : Cursor) : Bool :=
  c.gapAfter 0 || c.head?.any fun ch => "?:,]\x7d%@".toList.contains ch || ch.toNat == 0x60

/-- Reads an anchor or an alias. -/
def fetchAnchor? (s : Scanner) (make : List Char → Token) : Option Scanner := do
  let s := (← s.noteKey?).allowKey false
  let (name, c) := (s.cursor.skip 1).span isWordChar
  if name.isEmpty || !endsAnchor c then none
  return { s.push (make name) with cursor := c }

/-- Reads a tag: between angle brackets, with a handle, or with none. -/
def tag? (c : Cursor) : Option (Token × Cursor) :=
  if (c.skip 1).startsWith '<' then do
    let (body, c) ← tagBody? true (c.skip 2)
    if body.isEmpty || !c.startsWith '>' then none
    return (.tag [] (beforeZero body), c.skip 1)
  else do
    let (handle, c) ← tagHandle? false c
    let (body, c) ← tagBody? false c
    if 1 < handle.length && handle.getLast? == some '!' then
      -- The handle is complete, and a tag cannot be a handle alone.
      if body.isEmpty then none
      return (.tag handle (beforeZero body), c)
    else
      -- What was read as a handle is the start of the tag.
      let suffix := handle.drop 1 ++ beforeZero body
      return (if suffix.isEmpty then .tag [] ['!'] else .tag ['!'] suffix, c)

/-- Reads a tag, which ends at white space or at the comma of a flow collection. -/
def fetchTag? (s : Scanner) : Option Scanner := do
  let s := (← s.noteKey?).allowKey false
  let (t, c) ← tag? s.cursor
  if !c.gapAfter 0 && !(s.inFlow && c.startsWith ',') then none
  return { s.push t with cursor := c }

/-- Reads a block scalar. -/
def fetchBlock? (s : Scanner) (literal : Bool) : Option Scanner := do
  let s := (← s.dropKey?).allowKey true
  let (text, c) ← Scalar.block? literal s.indent? s.cursor
  return { s.push (.scalar (if literal then .literal else .folded) text) with cursor := c }

/-- Reads a quoted scalar. -/
def fetchQuoted? (s : Scanner) (double : Bool) : Option Scanner := do
  let s := (← s.noteKey?).allowKey false
  let (text, c) ← Scalar.quoted? double s.cursor
  return { s.push (.scalar (if double then .doubleQuoted else .singleQuoted) text) with
    cursor := c }

/-- Reads a plain scalar. A line break after it lets a key start. -/
def fetchPlain? (s : Scanner) : Option Scanner := do
  let s := (← s.noteKey?).allowKey false
  let indent := match s.indent? with
    | some i => i + 1
    | none => 0
  let p ← Scalar.plain? s.inFlow indent s.cursor
  return { s.push (.scalar .plain p.text) with cursor := p.after, keyAllowed := p.broken }

/-- Whether a plain scalar can start with the character at the cursor. A dash can if no
space follows, and in a block so can the marks of keys and values. -/
def startsPlain (s : Scanner) (ch : Char) : Bool :=
  if ch == '-' then !(s.cursor.rest[1]?.any isSpaceOrTab)
  else if ch == '?' || ch == ':' then !s.inFlow && !s.cursor.gapAfter 1
  else !isGapChar ch && !(",[]\x7b\x7d#&*!|>'\"%@".toList.contains ch || ch.toNat == 0x60)

/-! ### The stream -/

/-- Reads a token that starts with `ch`. -/
def fetch? (s : Scanner) (ch : Char) : Option Scanner :=
  let c := s.cursor
  -- The order counts: three dashes are a document mark before they are an item.
  if c.column == 0 && ch == '%' then s.fetchDirective?
  else if c.atDocumentMark then
    s.fetchDocumentMark? (if ch == '-' then .documentStart else .documentEnd)
  else if ch == '[' then s.fetchFlowStart? .flowSequenceStart
  else if ch == '{' then s.fetchFlowStart? .flowMappingStart
  else if ch == ']' then s.fetchFlowEnd? .flowSequenceEnd
  else if ch == '}' then s.fetchFlowEnd? .flowMappingEnd
  else if ch == ',' then s.fetchFlowEntry?
  else if ch == '-' && c.gapAfter 1 then s.fetchBlockEntry?
  else if ch == '?' && (s.inFlow || c.gapAfter 1) then s.fetchKey?
  else if ch == ':' && (s.inFlow || c.gapAfter 1) then s.fetchValue?
  else if ch == '*' then s.fetchAnchor? .alias
  else if ch == '&' then s.fetchAnchor? .anchor
  else if ch == '!' then s.fetchTag?
  else if ch == '|' && !s.inFlow then s.fetchBlock? true
  else if ch == '>' && !s.inFlow then s.fetchBlock? false
  else if ch == '\'' then s.fetchQuoted? false
  else if ch == '"' then s.fetchQuoted? true
  else if s.startsPlain ch then s.fetchPlain?
  else none

/-- Reads one token, with what opens and closes before it, or ends the stream. The
answer is `none` if a rule is broken; the flag says whether the stream has ended. -/
def next? (s : Scanner) : Option (Scanner × Bool) := do
  let s := s.skipGaps
  -- A required key that is out of reach breaks a rule, before anything is closed.
  let s ← s.dropStale?
  let s := s.unroll (some s.cursor.column)
  match s.cursor.rest with
  | [] => return (← s.closeAll?, true)
  | ch :: _ => return (← s.fetch? ch, false)

/-- Reads tokens up to the end of the stream. -/
def run? : Nat → Scanner → Option Scanner
  | 0, _ => none
  | fuel + 1, s =>
    match s.next? with
    | none => none
    | some (s, ended) => if ended then some s else run? fuel s

end Scanner

/-- The tokens of a text. -/
def tokens? (text : List Char) : Option (List Token) :=
  if text.all isAllowed then
    let s : Scanner := { cursor := { rest := text } }
    (s.run? (text.length + 1)).map (·.tokens)
  else none

end Unimported.Yaml
