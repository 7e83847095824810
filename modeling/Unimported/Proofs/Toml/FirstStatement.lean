import Unimported.Proofs.Text.Run
import Unimported.Toml.Table

/-!
# `Unimported.Proofs.Toml.FirstStatement`: how a TOML document begins

In front of the first statement of a document stand blank lines and comments, and the
statement itself begins with the bracket of a header or with a key. Behind the first part of
that key a dot or an equals sign follows.

- `preamble` is the text before the first statement, and `content` the text from there on.
- `leads_preamble`: the preamble consists of lines with nothing but a comment.
- `ofText?_cases`: a document without a statement is empty, and otherwise its content
  begins with a header or a key.
-/

set_option autoImplicit false

namespace Unimported.Toml

/-! ### The preamble -/

/-- The text without a mark of the byte order at its start. -/
def unmarked (text : List Char) : List Char :=
  if text.head? = some '\ufeff' then text.drop 1 else text

/-- The text from its first statement on. -/
def content (text : List Char) : List Char :=
  match skipTrivia (unmarked text) with
  | '#' :: _ => []
  | rest => rest

/-- The text before its first statement: blank lines and comments. -/
def preamble (text : List Char) : List Char :=
  (unmarked text).take ((unmarked text).length - (content text).length)

/-- A text that leads to the first statement: blanks and comments, one a line. Only the
comment at the end of a document is without a line break. -/
inductive Leads : List Char → List Char → Prop
  /-- The indentation of the first statement. -/
  | blanks {blanks rest : List Char} : (∀ c ∈ blanks, isSpaceOrTab c) → Leads blanks rest
  /-- The comment at the end of a document. -/
  | comment {blanks comment : List Char} : (∀ c ∈ blanks, isSpaceOrTab c) →
    (∀ c ∈ comment, isPrintable c) → Leads (blanks ++ '#' :: comment) []
  /-- A line with a comment or without. -/
  | line {blanks comment br pre rest : List Char} : (∀ c ∈ blanks, isSpaceOrTab c) →
    (comment = [] ∨ comment.head? = some '#' ∧ ∀ c ∈ comment, isPrintable c) →
    (br = ['\n'] ∨ br = ['\r', '\n']) → Leads pre rest →
    Leads (blanks ++ comment ++ br ++ pre) rest

/-! ### Stepping over it -/

/-- A line break of TOML is a line feed, with or without a carriage return before it. -/
theorem exists_of_afterBreak? {text rest : List Char} (h : afterBreak? text = some rest) :
    ∃ br, text = br ++ rest ∧ (br = ['\n'] ∨ br = ['\r', '\n']) := by
  simp only [afterBreak?] at h
  split at h
  · exact ⟨['\n'], by simpa using h, .inl rfl⟩
  · exact ⟨['\r', '\n'], by simpa using h, .inr rfl⟩
  · cases h

/-- What is stepped over as a comment is nothing, or begins with its mark and goes on with
printable characters. -/
theorem exists_skipComment (text : List Char) :
    ∃ comment, text = comment ++ skipComment text ∧
      (comment = [] ∨ comment.head? = some '#' ∧ ∀ c ∈ comment, isPrintable c) := by
  simp only [skipComment]
  split
  next rest =>
    refine ⟨'#' :: rest.takeWhile isPrintable, ?_, .inr ⟨rfl, ?_⟩⟩
    · rw [List.cons_append, List.takeWhile_append_dropWhile]
    · intro c hc
      rcases List.mem_cons.mp hc with rfl | hc
      · decide
      · exact List.mem_takeWhile_imp hc
  next => exact ⟨[], rfl, .inl rfl⟩

/-- What is left behind blank lines and comments does not start with one of them. -/
theorem skipTriviaWithin_leads {n : Nat} {text : List Char} (h : text.length < n) :
    StopsAt isSpaceOrTab (skipTriviaWithin n text) ∧
      afterBreak? (skipComment (skipTriviaWithin n text)) = none ∧
      ∃ pre, text = pre ++ skipTriviaWithin n text ∧
        Leads pre (skipTriviaWithin n text) := by
  induction n generalizing text with
  | zero => exact absurd h (Nat.not_lt_zero _)
  | succ n ih =>
    have hblanks : ∀ c ∈ text.takeWhile isSpaceOrTab, isSpaceOrTab c :=
      fun c hc => List.mem_takeWhile_imp hc
    have hsplit : text.takeWhile isSpaceOrTab ++ skipBlanks text = text :=
      List.takeWhile_append_dropWhile
    simp only [skipTriviaWithin]
    split
    next rest hrest =>
      -- A line break is left: the line in front of it was blank or a comment, and is skipped.
      obtain ⟨comment, hcomment, hshape⟩ := exists_skipComment (skipBlanks text)
      obtain ⟨br, hbr, hbreak⟩ := exists_of_afterBreak? hrest
      have htext : text.takeWhile isSpaceOrTab ++ comment ++ br ++ rest = text := by
        rw [List.append_assoc, List.append_assoc, ← hbr, ← hcomment, hsplit]
      have hlt : rest.length < n := by
        have hlength := congrArg List.length htext
        have hpos : 0 < br.length := by rcases hbreak with rfl | rfl <;> decide
        simp only [List.length_append] at hlength
        omega
      obtain ⟨hstop, hnone, pre, hpre, hleads⟩ := ih hlt
      refine ⟨hstop, hnone, _, ?_, .line hblanks hshape hbreak hleads⟩
      rw [List.append_assoc, ← hpre, htext]
    next hnone =>
      exact ⟨stopsAt_dropWhile _ _, hnone, _, hsplit.symm, .blanks hblanks⟩

/-- The comment that ends a document belongs to what is in front of its first statement. -/
theorem Leads.append_comment {pre comment : List Char} (h : Leads pre ('#' :: comment))
    (hcomment : ∀ c ∈ comment, isPrintable c) : Leads (pre ++ '#' :: comment) [] := by
  generalize hrest : '#' :: comment = rest at h
  induction h with
  | blanks hblanks => exact hrest ▸ .comment hblanks hcomment
  | comment => cases hrest
  | line hblanks hshape hbreak _ ih =>
    rw [List.append_assoc]
    exact .line hblanks hshape hbreak (ih hrest)

/-! ### The first statement -/

/-- Behind a part of a key its next part or its value follows. -/
def KeyGoesOn (text : List Char) : Prop :=
  (skipBlanks text).head? = some '.' ∨ (skipBlanks text).head? = some '='

/-- How a statement starts: with the bracket of a header, or with a part of a key, in
quotes or without. -/
inductive StartsStatement : List Char → Prop
  /-- The header of a table. -/
  | header (rest : List Char) : StartsStatement ('[' :: rest)
  /-- A part of a key in quotes. -/
  | quoted {text name after : List Char} : lineString? text = some (name, after) →
    KeyGoesOn after → StartsStatement text
  /-- A part of a key without quotes. -/
  | bare {word after : List Char} : word ≠ [] → (∀ c ∈ word, isBare c) →
    StopsAt isBare after → KeyGoesOn after → StartsStatement (word ++ after)

/-- The first part of a key has a dot or an equals sign behind it. -/
theorem keyGoesOn_of_partsWithin {n : Nat} {text rest : List Char} {key : Key}
    (h : partsWithin n text = some (key, '=' :: rest)) :
    ∃ p after, part? text = some (p, after) ∧
      (after.head? = some '.' ∨ after.head? = some '=') := by
  cases n with
  | zero => cases h
  | succ n =>
    simp only [partsWithin] at h
    split at h
    · cases h
    next p after hp => exact ⟨p, _, hp, .inl rfl⟩
    next p after _ hp =>
      obtain ⟨-, rfl⟩ := Prod.mk.inj (Option.some.inj h)
      exact ⟨p, _, hp, .inr rfl⟩

/-- A text that can be read as a part of a key, with a dot or an equals sign behind it, starts a
statement. -/
theorem startsStatement_of_part? {text name after : List Char}
    (hblank : StopsAt isSpaceOrTab text) (h : part? text = some (name, after))
    (hafter : after.head? = some '.' ∨ after.head? = some '=') : StartsStatement text := by
  have hskip : skipBlanks text = text := dropWhile_eq_self hblank
  simp only [part?, hskip] at h
  split at h
  case h_1 | h_2 =>
    obtain ⟨⟨p, rest⟩, hline, heq⟩ := Option.map_eq_some_iff.mp h
    obtain ⟨-, rfl⟩ := Prod.mk.inj heq
    exact .quoted hline hafter
  case h_3 =>
    split at h
    · cases h
    next hword =>
      obtain ⟨-, rfl⟩ := Prod.mk.inj (Option.some.inj h)
      rw [← List.takeWhile_append_dropWhile (p := isBare) (l := text)]
      refine .bare (by simpa using hword) (fun c hc => List.mem_takeWhile_imp hc)
        (stopsAt_dropWhile _ _) ?_
      rwa [KeyGoesOn, ← drop_length_takeWhile]

/-- A text that can be read as a key and its equals sign starts a statement. -/
theorem startsStatement_of_key? {text rest : List Char} {key : Key}
    (hblank : StopsAt isSpaceOrTab text) (h : key? text = some (key, '=' :: rest)) :
    StartsStatement text := by
  simp only [key?] at h
  split at h
  next parts after hparts =>
    split at h
    · obtain ⟨rfl, rfl⟩ := Prod.mk.inj (Option.some.inj h)
      obtain ⟨p, after, hp, hafter⟩ := keyGoesOn_of_partsWithin hparts
      exact startsStatement_of_part? hblank hp hafter
    · cases h
  · cases h

/-- A text that can be read as a statement starts one. -/
theorem startsStatement_of_statement? {text : List Char} {x : Statement × List Char}
    (hblank : StopsAt isSpaceOrTab text) (h : statement? text = some x) :
    StartsStatement text := by
  simp only [statement?] at h
  split at h
  · exact .header _
  · exact .header _
  · split at h
    next hkey => exact startsStatement_of_key? hblank hkey
    · cases h

/-- A comment that no line break follows, where the reader of the last line accepts it. -/
theorem isPrintable_of_endLine? {comment : List Char}
    (h : (endLine? ('#' :: comment)).isSome)
    (hnone : afterBreak? (skipComment ('#' :: comment)) = none) :
    ∀ c ∈ comment, isPrintable c := by
  have hskip : skipBlanks ('#' :: comment) = '#' :: comment := rfl
  rw [skipComment] at hnone
  simp only [endLine?, hskip, skipComment] at h
  split at h
  next hnil => exact List.dropWhile_eq_nil_iff.mp hnil
  next => simp [hnone] at h

/-- A document is its preamble and its content, and if it has any statement, the content
starts with one. -/
theorem statements?_cases {text : List Char} {ss : List Statement}
    (h : statements? text = some ss) :
    unmarked text = preamble text ++ content text ∧ Leads (preamble text) (content text) ∧
      (content text = [] ∧ ss = [] ∨ StartsStatement (content text)) := by
  obtain ⟨hblank, hnone, pre, hpre, hleads⟩ :=
    skipTriviaWithin_leads (Nat.lt_succ_self (unmarked text).length)
  change StopsAt isSpaceOrTab (skipTrivia (unmarked text)) at hblank
  change unmarked text = pre ++ skipTrivia (unmarked text) at hpre
  change Leads pre (skipTrivia (unmarked text)) at hleads
  change statementsWithin ((unmarked text).length + 1) (unmarked text) = some ss at h
  have split_at {pre' : List Char} (heq : unmarked text = pre' ++ content text)
      (hleads' : Leads pre' (content text)) :
      unmarked text = preamble text ++ content text ∧ Leads (preamble text) (content text) := by
    have hpreamble : preamble text = pre' := by
      rw [preamble, heq]
      simp
    exact hpreamble ▸ ⟨heq, hleads'⟩
  simp only [statementsWithin] at h
  -- There is nothing behind the skipped lines, a last comment, or a statement.
  split at h
  next hskip =>
    have hcontent : content text = [] := by simp [content, hskip]
    rw [hskip, ← hcontent] at hpre hleads
    exact and_assoc.mp ⟨split_at hpre hleads, .inl ⟨hcontent, (Option.some.inj h).symm⟩⟩
  next comment hskip =>
    have hcontent : content text = [] := by simp [content, hskip]
    split at h
    next hend =>
      have hprintable := isPrintable_of_endLine? hend (hskip ▸ hnone)
      rw [hskip] at hpre hleads
      have hleads := hleads.append_comment hprintable
      rw [← List.append_nil (pre ++ '#' :: comment), ← hcontent] at hpre
      rw [← hcontent] at hleads
      exact and_assoc.mp ⟨split_at hpre hleads, .inl ⟨hcontent, (Option.some.inj h).symm⟩⟩
    next => cases h
  next hnil hcomment =>
    have hcontent : content text = skipTrivia (unmarked text) := by
      rw [content]
      split
      next comment hskip => exact absurd hskip (hcomment comment)
      next => rfl
    rw [← hcontent] at hpre hleads
    refine and_assoc.mp ⟨split_at hpre hleads, .inr ?_⟩
    rw [hcontent]
    split at h
    · cases h
    next hx => exact startsStatement_of_statement? hblank hx

end Unimported.Toml
