import Unimported.Text.Blank

/-!
# `Unimported.Specifier`: the specifiers a source text imports

A specifier is found by its looks: the word `from` or `import`, white space, and a
quoted text. Nothing else of the language is understood, so a comment that looks like
an import is one, and an import that is written in another way is none.

- `capture?` reads one such clause at the start of a text.
- `captures` finds the clauses of one keyword from left to right; a clause begins
  only after the clause before it has ended.
- `specifiers` are the captures of `from` and then those of `import` that begin with
  a dot, each once.
-/

set_option autoImplicit false

namespace Unimported.Specifier

/-- Whether a character opens or closes a quoted text. Any quote closes what any
quote has opened. -/
def isQuote (c : Char) : Bool :=
  c == '\'' || c == '"'

/-- The text up to the next quote, and what follows that quote. There is none if the
line ends first. -/
def untilQuote : List Char → Option (List Char × List Char)
  | [] => none
  | c :: rest =>
    if isQuote c then some ([], rest)
    else if c = '\n' then none
    else (untilQuote rest).map fun (text, after) => (c :: text, after)

/-- The quoted text at the start of `text`, and what follows it. Its first character
is taken whatever it is, a quote too, as long as it is on the line. -/
def quoted? : List Char → Option (List Char × List Char)
  | opening :: first :: rest =>
    if isQuote opening ∧ first ≠ '\n' then
      (untilQuote rest).map fun (text, after) => (first :: text, after)
    else none
  | _ => none

/-- The text that a clause at the start of `text` quotes, and what follows the clause:
the keyword, at least one white space character, and a quoted text. -/
def capture? (keyword text : List Char) : Option (List Char × List Char) :=
  if keyword.isPrefixOf text then
    match text.drop keyword.length with
    | [] => none
    | c :: rest => if isBlank c then quoted? (rest.dropWhile isBlank) else none
  else none

/-- The texts that the clauses of a keyword quote, from left to right, where the next
`skip` characters belong to a clause that was found before them. -/
def capturesAfter (keyword : List Char) : Nat → List Char → List (List Char)
  | _, [] => []
  | skip + 1, _ :: rest => capturesAfter keyword skip rest
  | 0, c :: rest =>
    match capture? keyword (c :: rest) with
    | some (text, after) =>
      -- The clause has all characters up to `after`, the first of which is `c`.
      text :: capturesAfter keyword (rest.length - after.length) rest
    | none => capturesAfter keyword 0 rest

/-- The texts that the clauses of a keyword quote, from left to right. -/
def captures (keyword text : List Char) : List (List Char) :=
  capturesAfter keyword 0 text

/-- The elements of a list, each where it occurs first, leaving out those in `seen`. -/
def firsts {α : Type} [DecidableEq α] : List α → List α → List α
  | _, [] => []
  | seen, x :: rest =>
    if x ∈ seen then firsts seen rest else x :: firsts (x :: seen) rest

/-- The relative specifiers of a source text: those of `from` clauses and then those
of plain `import` clauses, each where it occurs first. -/
def specifiers (source : List Char) : List (List Char) :=
  firsts [] (((captures "from".toList source) ++ (captures "import".toList source)).filter
    fun text => text.head? == some '.')

end Unimported.Specifier
