/-!
# `Unimported.Toml.Text`: text in TOML

Readers take the text at hand and answer with what they have read and the text behind
it, or `none` if they cannot read anything.

- `Toml.string?` reads a text between quotes, of one line or of more.
- `Toml.skipTrivia` steps over blanks, line breaks and comments.
-/

set_option autoImplicit false

namespace Unimported.Toml

/-- A reader of `α`. -/
abbrev Reader (α : Type) := List Char → Option (α × List Char)

/-! ### Characters -/

/-- Whether a character may occur in a comment, and in a text unless it has a meaning
there. -/
def isPrintable (c : Char) : Bool :=
  c == '\t' || (0x20 ≤ c.toNat && c.toNat ≤ 0x7E) || 0x80 ≤ c.toNat

/-- Whether a character separates tokens on a line. -/
def isSpaceOrTab (c : Char) : Bool :=
  c == ' ' || c == '\t'

/-- The text behind a line break, if it starts with one. -/
def afterBreak? : List Char → Option (List Char)
  | '\n' :: rest => some rest
  | '\r' :: '\n' :: rest => some rest
  | _ => none

/-- The text behind the spaces and tabs. -/
def skipBlanks (text : List Char) : List Char :=
  text.dropWhile isSpaceOrTab

/-- The text behind a comment, if it starts with one. -/
def skipComment : List Char → List Char
  | '#' :: rest => rest.dropWhile isPrintable
  | text => text

/-- The text behind blanks, line breaks, and comments that end in a line break. -/
def skipTriviaWithin : Nat → List Char → List Char
  | 0, text => text
  | fuel + 1, text =>
    let text := skipBlanks text
    -- A comment at the end of the text is left for the reader of the last line.
    match afterBreak? (skipComment text) with
    | some rest => skipTriviaWithin fuel rest
    | none => text

/-- The text behind blanks, line breaks, and comments that end in a line break. -/
def skipTrivia (text : List Char) : List Char :=
  skipTriviaWithin (text.length + 1) text

/-! ### Escape sequences -/

/-- The value of a hexadecimal digit. -/
def hexValue? (c : Char) : Option Nat :=
  if '0' ≤ c ∧ c ≤ '9' then some (c.toNat - 48)
  else if 'a' ≤ c ∧ c ≤ 'f' then some (c.toNat - 87)
  else if 'A' ≤ c ∧ c ≤ 'F' then some (c.toNat - 55)
  else none

/-- The character with the number that `count` hexadecimal digits give. -/
def numbered? (count : Nat) : Reader Char := fun text =>
  let digits := text.take count
  if digits.length = count then
    match digits.mapM hexValue? with
    | some values =>
      let n := values.foldl (fun n d => n * 16 + d) 0
      if (0xD800 ≤ n ∧ n ≤ 0xDFFF) ∨ 0x10FFFF < n then none
      else some (Char.ofNat n, text.drop count)
    | none => none
  else none

/-- The character of an escape sequence, behind its backslash. -/
def escape? : Reader Char
  | 'b' :: rest => some ('\x08', rest)
  | 't' :: rest => some ('\t', rest)
  | 'n' :: rest => some ('\n', rest)
  | 'f' :: rest => some ('\x0c', rest)
  | 'r' :: rest => some ('\r', rest)
  | '"' :: rest => some ('"', rest)
  | '\\' :: rest => some ('\\', rest)
  | 'u' :: rest => numbered? 4 rest
  | 'U' :: rest => numbered? 8 rest
  | _ => none

/-! ### Texts of one line -/

/-- The rest of a text in double quotes. -/
def basicWithin : Nat → Reader (List Char)
  | 0, _ => none
  | fuel + 1, text =>
    match text with
    | [] => none
    | '"' :: rest => some ([], rest)
    | '\\' :: rest =>
      match escape? rest with
      | some (c, rest) => (basicWithin fuel rest).map fun (more, after) => (c :: more, after)
      | none => none
    | c :: rest =>
      if isPrintable c then
        (basicWithin fuel rest).map fun (more, after) => (c :: more, after)
      else none

/-- The rest of a text in single quotes, in which every character stands for itself. -/
def literalRest? : Reader (List Char)
  | [] => none
  | c :: rest =>
    if c = '\'' then some ([], rest)
    else if isPrintable c then
      (literalRest? rest).map fun (more, after) => (c :: more, after)
    else none

/-- A text of one line in quotes of either kind. -/
def lineString? : Reader (List Char)
  | '"' :: rest => basicWithin (rest.length + 1) rest
  | '\'' :: rest => literalRest? rest
  | _ => none

/-! ### Texts of more lines -/

/-- Up to two quotes that stand before the end of a text belong to it: it ends with the
last three of them. -/
def closing (quote : Char) (rest : List Char) : List Char × List Char :=
  let own := (rest.take 2).takeWhile (· == quote)
  (own, rest.drop own.length)

/-- The text behind spaces, tabs and line breaks. A carriage return alone is no line break. -/
def skipWhite : List Char → List Char
  | '\n' :: rest => skipWhite rest
  | '\r' :: '\n' :: rest => skipWhite rest
  | c :: rest => if isSpaceOrTab c then skipWhite rest else c :: rest
  | [] => []

/-- The text behind a backslash at the end of a line and the white space after it. -/
def continued? (rest : List Char) : Option (List Char) :=
  (afterBreak? (skipBlanks rest)).map skipWhite

/-- The rest of a text in three quotes each. With `escapes` a backslash starts an escape
sequence, or joins lines; without, every character stands for itself. -/
def linesWithin (quote : Char) (escapes : Bool) : Nat → Reader (List Char)
  | 0, _ => none
  | fuel + 1, text =>
    let goOn (c : Char) (rest : List Char) : Option (List Char × List Char) :=
      (linesWithin quote escapes fuel rest).map fun (more, after) => (c :: more, after)
    match text with
    | [] => none
    | c :: rest =>
      if c == quote && rest.take 2 == [quote, quote] then some (closing quote (rest.drop 2))
      else if escapes && c == '\\' then
        -- A backslash at the end of a line is no escape sequence.
        match continued? rest with
        | some rest => linesWithin quote escapes fuel rest
        | none =>
          match escape? rest with
          | some (e, rest) => goOn e rest
          | none => none
      else
        match afterBreak? text with
        | some rest => goOn '\n' rest
        | none => if isPrintable c then goOn c rest else none

/-- A text in three quotes each. A line break right after the first of them does not
count. -/
def linesString? (quote : Char) (escapes : Bool) : Reader (List Char) := fun text =>
  let body := text.drop 3
  let body := (afterBreak? body).getD body
  linesWithin quote escapes (body.length + 1) body

/-- A text in quotes of any kind. -/
def string? : Reader (List Char) := fun text =>
  match text with
  | '"' :: '"' :: '"' :: _ => linesString? '"' true text
  | '\'' :: '\'' :: '\'' :: _ => linesString? '\'' false text
  | _ => lineString? text

end Unimported.Toml
