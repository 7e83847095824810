import Unimported.Proofs.Text.Run
import Unimported.Proofs.Yaml.Plain
import Unimported.Proofs.Yaml.Scanner

/-!
# `Unimported.Proofs.Yaml.Opening`: the first tokens of a stream

Before the first token a scanner has nothing but its cursor, so the first character says
which token is read and what is noted. What the stream can become after that follows from
the candidates: a bracket or a quote opens a stream whose first token may turn out to be a
key, and a dash or a document mark settles the first token at once.

- `start` is the scanner in front of the first token.
- `fetch?_bracket`, `fetch?_quote`, `fetch?_entry`, `fetch?_documentMark`, `fetch?_plain`
  say which reader the first character calls.
- `next?_sign` reads the dot or the equals sign that TOML puts behind a key: to YAML it
  starts a plain scalar.
- `run?_of_isOutOfReach`: a first token that no key can reach back to stays the first.
-/

set_option autoImplicit false

namespace Unimported.Yaml.Scanner

variable {c : Cursor} {s s' : Scanner}

/-- The scanner in front of its first token. -/
def start (c : Cursor) : Scanner :=
  { cursor := c }

/-! ### The first character -/

/-- No token begins with a tab. -/
theorem fetch?_tab (h : s.cursor.atDocumentMark = false) : s.fetch? '\t' = none := by
  simp [fetch?, h, startsPlain, isGapChar, isSpaceOrTab]

/-- A bracket at the start opens a sequence. -/
theorem fetch?_bracket (h : c.atDocumentMark = false) :
    (start c).fetch? '[' = (start c).fetchFlowStart? .flowSequenceStart := by
  simp [fetch?, start, h]

/-- A quote at the start begins a scalar. -/
theorem fetch?_quote {quote : Char} (hquote : quote = '"' ∨ quote = '\'')
    (h : c.atDocumentMark = false) :
    (start c).fetch? quote = (start c).fetchQuoted? (quote == '"') := by
  rcases hquote with rfl | rfl
  · simp [fetch?, start, h]
  · simp [fetch?, start, h]

/-- A dash with a gap behind it begins an item. -/
theorem fetch?_entry (h : c.atDocumentMark = false) (hgap : c.gapAfter 1) :
    (start c).fetch? '-' = fetchBlockEntry? (start c) := by
  simp [fetch?, start, h, hgap]

/-- Three dashes at the start are a document mark, and no item. -/
theorem fetch?_documentMark (h : c.atDocumentMark) :
    (start c).fetch? '-' = (start c).fetchDocumentMark? .documentStart := by
  simp [fetch?, start, h]

/-- A character that means something to a scanner, or is white space. A dash does so only
in front of white space. -/
def marks : List Char :=
  ['%', '[', ']', '{', '}', ',', '?', ':', '*', '&', '!', '|', '>', '\'', '"', '#', '@',
    Char.ofNat 0x60, ' ', '\t', '\n', '\r', '\u0085', '\u2028', '\u2029']

/-- The characters that are no marks are no white space either. -/
theorem isGapChar_of_notMem_marks {ch : Char} (h : ch ∉ marks) : isGapChar ch = false := by
  simp only [marks, List.mem_cons, List.not_mem_nil, or_false, not_or] at h
  simp [isGapChar, isSpaceOrTab, isBreak, h]

/-- Any other character starts a plain scalar. -/
theorem fetch?_plain {ch : Char} (hch : ch ∉ marks) (h : s.cursor.atDocumentMark = false)
    (hgap : ch = '-' → s.cursor.gapAfter 1 = false) : s.fetch? ch = s.fetchPlain? := by
  have hne := hch
  simp only [marks, List.mem_cons, List.not_mem_nil, or_false, not_or] at hne
  -- A dash starts a plain scalar where no gap follows, as any character does that is no mark.
  have hplain : s.startsPlain ch := by
    simp only [startsPlain]
    split
    next hdash =>
      have hgap := hgap (beq_iff_eq.mp hdash)
      simp only [Cursor.gapAfter] at hgap
      split at hgap
      next next hnext =>
        simp only [isGapChar, Bool.or_eq_false_iff] at hgap
        simp [hnext, hgap.1]
      next => cases hgap
    · have hcode : ch.toNat ≠ 0x60 := fun hcode =>
        hch (by rw [← Char.ofNat_toNat ch, hcode]; decide)
      simp [hne, hcode, isGapChar_of_notMem_marks hch]
  by_cases hdash : ch = '-'
  · subst hdash
    simp [fetch?, h, hgap rfl, hplain]
  · simp [fetch?, h, hne, hdash, hplain]

/-! ### The first token -/

/-- The first token of a stream may start a key. -/
theorem noteKey?_start (c : Cursor) :
    (start c).noteKey? = some { start c with keys := [some ⟨0, false, c⟩] } :=
  rfl

/-- A bracket may be the start of a key, and nothing before it can change. -/
theorem open_flowSequence (h : (start c).fetchFlowStart? .flowSequenceStart = some s') :
    Open [.flowSequenceStart] s' := by
  rw [fetchFlowStart?, noteKey?_start] at h
  obtain rfl := Option.some.inj h
  refine ⟨List.prefix_rfl, fun depth k hk => .inr ?_⟩
  change noted [none, some ⟨0, false, c⟩] depth = some k at hk
  rw [noted_cons] at hk
  split at hk
  · cases hk
  · have hlt := lt_length_of_noted hk
    rw [noted_cons] at hk
    split at hk
    · obtain rfl := Option.some.inj hk
      exact ⟨‹_›, rfl⟩
    · cases hk

/-- Without candidates nothing can come before the tokens that were read. -/
theorem settled_of_keys (h : s.keys = [none]) : Settled s.tokens s := by
  refine ⟨List.prefix_rfl, fun depth k hk => ?_⟩
  rw [h, noted_cons] at hk
  split at hk <;> cases hk

/-- A single candidate in front of all tokens may make them the start of a key. -/
theorem open_of_keys {k : KeyCandidate} (h : s.keys = [none] ∨ s.keys = [some k])
    (hk : k.position = 0) : Open s.tokens s := by
  refine ⟨List.prefix_rfl, fun depth k' hk' => .inr ?_⟩
  rcases h with h | h <;> rw [h, noted_cons] at hk' <;> split at hk'
  · cases hk'
  · cases hk'
  · obtain rfl := Option.some.inj hk'
    exact ⟨‹_›, hk⟩
  · cases hk'

/-- A dash with white space behind it starts a sequence. -/
theorem settled_blockSequence (h : fetchBlockEntry? (start c) = some s') :
    Settled [.blockSequenceStart] s' := by
  obtain rfl := Option.some.inj h
  refine ⟨⟨[.blockEntry], rfl⟩, fun depth k hk => ?_⟩
  change noted [none] depth = some k at hk
  rw [noted_cons] at hk
  split at hk <;> cases hk

/-- A document mark is no key. -/
theorem fetchDocumentMark?_start (t : Token) :
    (start c).fetchDocumentMark? t =
      some { cursor := c.skip 3, tokens := [t], keyAllowed := false } :=
  rfl

/-- A quoted scalar may be the start of a key. -/
theorem exists_of_fetchQuoted?_start {double : Bool} (h : (start c).fetchQuoted? double = some s') :
    ∃ style text after, Scalar.quoted? double c = some (text, after) ∧
      s' = {
        cursor := after
        tokens := [.scalar style text]
        keys := [some ⟨0, false, c⟩]
        keyAllowed := false } := by
  simp only [fetchQuoted?, noteKey?_start, Option.bind_eq_bind, Option.bind_some] at h
  obtain ⟨⟨text, after⟩, hread, h⟩ := Option.bind_eq_some_iff.mp h
  exact ⟨_, text, after, hread, (Option.some.inj h).symm⟩

/-- So may a plain scalar. -/
theorem exists_of_fetchPlain?_start (h : (start c).fetchPlain? = some s') :
    ∃ p, Scalar.plain? false 0 c = some p ∧
      s' = {
        cursor := p.after
        tokens := [.scalar .plain p.text]
        keys := [some ⟨0, false, c⟩]
        keyAllowed := p.broken } := by
  simp only [fetchPlain?, noteKey?_start, Option.bind_eq_bind, Option.bind_some] at h
  obtain ⟨p, hread, h⟩ := Option.bind_eq_some_iff.mp h
  exact ⟨p, hread, (Option.some.inj h).symm⟩

/-! ### White space, line by line -/

/-- The cursor behind the white space and the comment of a line. -/
def behindLine (s : Scanner) : Cursor :=
  let c := s.cursor
  let c := if c.column = 0 ∧ c.head? = some '\ufeff' then c.skip 1 else c
  let c := (c.span fun ch => ch == ' ' || ((s.inFlow || !s.keyAllowed) && ch == '\t')).2
  c.skipComment

/-- Gaps are stepped over line by line. -/
theorem skipGapsWithin_succ (n : Nat) (s : Scanner) :
    skipGapsWithin (n + 1) s =
      match s.behindLine.rest with
      | [] => { s with cursor := s.behindLine }
      | ch :: _ =>
        if isBreak ch then
          skipGapsWithin n
            { s with cursor := s.behindLine.skipBreak, keyAllowed := s.keyAllowed || !s.inFlow }
        else { s with cursor := s.behindLine } :=
  rfl

/-- Blanks and a comment do not lead to another line. -/
theorem behindLine_line (s : Scanner) : s.behindLine.line = s.cursor.line := by
  simp only [behindLine, Cursor.skipComment, Cursor.span]
  split <;> split <;> rfl

/-- The text behind a comment, which goes on to the end of the line. -/
def behindComment (text : List Char) : List Char :=
  if text.head? = some '#' then text.dropWhile fun ch => !isBreak ch else text

/-- A comment goes to the end of its line. -/
theorem behindComment_comment (rest : List Char) :
    behindComment ('#' :: rest) = ('#' :: rest).dropWhile fun ch => !isBreak ch := by
  simp [behindComment]

/-- What the cursor has behind a comment depends on the text alone. -/
theorem skipComment_rest (c : Cursor) : c.skipComment.rest = behindComment c.rest := by
  simp only [Cursor.skipComment, Cursor.startsWith, behindComment, Cursor.span, beq_iff_eq]
  split
  · exact drop_length_takeWhile _ _
  · rfl

/-- A mark of the byte order apart, a line is read past its blanks and its comment. -/
theorem behindLine_rest (h : s.cursor.rest.head? ≠ some '\ufeff') :
    s.behindLine.rest = behindComment (s.cursor.rest.dropWhile fun ch =>
      ch == ' ' || ((s.inFlow || !s.keyAllowed) && ch == '\t')) := by
  rw [behindLine, if_neg fun hmark => h hmark.2, skipComment_rest]
  exact congrArg behindComment (drop_length_takeWhile _ _)

/-! ### Behind the first token -/

/-- In front of a token of a block the only candidate is given up if it is out of reach,
and nothing else changes. -/
theorem ready?_block {o : Option KeyCandidate} (hindents : s.indents = []) (hkeys : s.keys = [o])
    (hrequired : ∀ k ∈ o, k.required = false) :
    s.ready? = some { s.skipGaps with
      keys := [if o.any (isStale s.skipGaps.cursor) then none else o] } := by
  have hfresh : (s.skipGaps.keys.any fun k =>
      k.any (isStale s.skipGaps.cursor) && k.any (·.required)) = false := by
    cases o with
    | none => simp [hkeys]
    | some k => simp [hkeys, hrequired k rfl]
  simp only [ready?, dropStale?, hfresh, if_neg Bool.false_ne_true, Option.map_some]
  simp [unroll, inFlow, hkeys, hindents]

/-- White space on a line ends in front of a character that is none and starts no
comment. -/
theorem skipGaps_blanks {ch : Char} {rest : List Char} (hkey : s.keyAllowed = false)
    (hcolumn : 0 < s.cursor.column) (hrest : s.cursor.rest.dropWhile isSpaceOrTab = ch :: rest)
    (hch : isBreak ch = false) (hcomment : ch ≠ '#') :
    s.skipGaps =
      { s with cursor := s.cursor.skip (s.cursor.rest.takeWhile isSpaceOrTab).length } := by
  have hspan : (fun ch => ch == ' ' || ((s.inFlow || !s.keyAllowed) && ch == '\t')) =
      isSpaceOrTab := by
    funext ch
    simp [hkey, isSpaceOrTab]
  have hafter : (s.cursor.skip (s.cursor.rest.takeWhile isSpaceOrTab).length).rest =
      ch :: rest := by
    rw [← hrest]
    exact drop_length_takeWhile _ _
  simp only [skipGaps, skipGapsWithin, Nat.ne_of_gt hcolumn, false_and, if_false, hspan,
    Cursor.span]
  simp [Cursor.skipComment, Cursor.startsWith, hafter, hch, hcomment]

/-- Where no key may start, a plain scalar of a block is not noted. -/
theorem exists_of_fetchPlain? {o : Option KeyCandidate} (h : s.fetchPlain? = some s')
    (hindents : s.indents = []) (hkeys : s.keys = [o]) (hkey : s.keyAllowed = false) :
    ∃ p, Scalar.plain? false 0 s.cursor = some p ∧
      s'.tokens = s.tokens ++ [.scalar .plain p.text] ∧ s'.keys = [o] := by
  have hnote : s.noteKey? = some s := by simp [noteKey?, hkey]
  simp only [fetchPlain?, hnote, Option.bind_eq_bind, Option.bind_some] at h
  obtain ⟨p, hp, h⟩ := Option.bind_eq_some_iff.mp h
  obtain rfl := Option.some.inj h
  refine ⟨p, ?_, rfl, hkeys⟩
  simpa [allowKey, inFlow, indent?, hkeys, hindents] using hp

/-- A dot or an equals sign behind a first token on its line starts a plain scalar. -/
theorem next?_sign {o : Option KeyCandidate} {ch : Char} {rest : List Char} {ended : Bool}
    (hindents : s.indents = []) (hkeys : s.keys = [o]) (hrequired : ∀ k ∈ o, k.required = false)
    (hkey : s.keyAllowed = false) (hcolumn : 0 < s.cursor.column)
    (hrest : s.cursor.rest.dropWhile isSpaceOrTab = ch :: rest) (hch : ch = '.' ∨ ch = '=')
    (h : s.next? = some (s', ended)) :
    ended = false ∧ (s'.keys = [none] ∨ s'.keys = [o]) ∧
      ∃ text, text ≠ [] ∧ s'.tokens = s.tokens ++ [.scalar .plain text] := by
  have hmarks : ch ∉ marks ∧ ch ≠ '-' ∧ ch ≠ '#' ∧ ch ≠ ':' := by
    rcases hch with rfl | rfl <;> decide
  obtain ⟨hnotMem, hdash, hcomment, hcolon⟩ := hmarks
  have hgap := isGapChar_of_notMem_marks hnotMem
  have hbreak : isBreak ch = false := (Bool.or_eq_false_iff.mp hgap).2
  have hskip := skipGaps_blanks hkey hcolumn hrest hbreak hcomment
  rw [next?_eq, ready?_block hindents hkeys hrequired, Option.bind_some, hskip] at h
  have hafter : (s.cursor.skip (s.cursor.rest.takeWhile isSpaceOrTab).length).rest =
      ch :: rest := by
    rw [← hrest]
    exact drop_length_takeWhile _ _
  have hdoc : (s.cursor.skip (s.cursor.rest.takeWhile isSpaceOrTab).length).atDocumentMark =
      false :=
    Cursor.atDocumentMark_of_column (Nat.lt_of_lt_of_le hcolumn (Nat.le_add_right _ _))
  simp only [hafter] at h
  obtain ⟨s₁, hs₁, heq⟩ := Option.map_eq_some_iff.mp h
  obtain ⟨rfl, rfl⟩ := Prod.mk.inj heq
  rw [fetch?_plain hnotMem hdoc (fun h => absurd h hdash)] at hs₁
  obtain ⟨p, hp, htokens, hkeys'⟩ := exists_of_fetchPlain? hs₁ hindents rfl hkey
  refine ⟨rfl, ?_, p.text, ?_, htokens⟩
  · rw [hkeys']
    split
    · exact .inl rfl
    · exact .inr rfl
  · exact Scalar.plain?_text_ne_nil hp hafter hdoc hgap hcomment hcolon

/-! ### First tokens out of reach -/

/-- Stepping over gaps never leads back to an earlier line. -/
theorem skipGapsWithin_line (n : Nat) (s : Scanner) :
    s.cursor.line ≤ (skipGapsWithin n s).cursor.line := by
  induction n generalizing s with
  | zero => exact Nat.le_refl _
  | succ n ih =>
    rw [skipGapsWithin_succ]
    split
    · exact Nat.le_of_eq (behindLine_line s).symm
    · split
      · refine Nat.le_trans ?_ (ih _)
        exact Nat.le_succ_of_le (Nat.le_of_eq (behindLine_line s).symm)
      · exact Nat.le_of_eq (behindLine_line s).symm

/-- Behind white space the text has ended, or a later line has begun. -/
theorem skipGaps_of_isOutOfReach {line : Nat} (h : Scalar.IsOutOfReach line s.cursor) :
    s.skipGaps.cursor.rest = [] ∨ line < s.skipGaps.cursor.line := by
  rcases h with hline | ⟨rfl, h⟩
  · exact .inr (Nat.lt_of_lt_of_le hline (skipGapsWithin_line _ s))
  · have hbehind : StopsAt (fun ch => !isBreak ch) s.behindLine.rest := by
      rcases h with h | h
      · rw [behindLine_rest (by simp [h]), h]
        exact stopsAt_nil _
      · obtain ⟨rest, hrest⟩ := List.head?_eq_some_iff.mp h
        rw [behindLine_rest (by simp [h]), hrest,
          dropWhile_eq_self (stopsAt_cons (by simp) rest), behindComment_comment]
        exact stopsAt_dropWhile _ _
    rw [skipGaps, skipGapsWithin_succ]
    split
    next hnil => exact .inl hnil
    next ch rest hrest =>
      rw [if_pos (by simpa using hbehind ch rest hrest)]
      refine .inr (Nat.lt_of_lt_of_le ?_ (skipGapsWithin_line _ _))
      exact Nat.lt_succ_of_le (Nat.le_of_eq (behindLine_line s).symm)

/-- A first token that no key can reach back to stays the first one. -/
theorem run?_of_isOutOfReach {k : KeyCandidate} {n : Nat} (hindents : s.indents = [])
    (hkeys : s.keys = [some k]) (hrequired : k.required = false)
    (hreach : Scalar.IsOutOfReach k.start.line s.cursor) (h : s.run? n = some s') :
    s.tokens <+: s'.tokens := by
  have hready := ready?_block hindents hkeys (by simpa using hrequired)
  cases n with
  | zero => cases h
  | succ n =>
    simp only [run?] at h
    split at h
    · cases h
    next s₁ ended hnext =>
      rcases skipGaps_of_isOutOfReach hreach with hend | hline
      · -- The stream ends, and closing it adds tokens at its end.
        rw [next?_eq, hready, Option.bind_some] at hnext
        simp only [hend] at hnext
        obtain ⟨s₂, hs₂, heq⟩ := Option.map_eq_some_iff.mp hnext
        obtain ⟨rfl, rfl⟩ := Prod.mk.inj heq
        obtain rfl := Option.some.inj h
        have hext := (extends_closeAll? hs₂).tokens
        rwa [skipGaps_tokens] at hext
      · have hstale : isStale s.skipGaps.cursor k := by simp [isStale, hline]
        obtain ⟨s₂, hs₂, hcases⟩ := next?_cases hnext
        obtain rfl := Option.some.inj (hready.symm.trans hs₂)
        have hsettled : Settled s.tokens s₁ := by
          refine Settled.of_cases ?_ hcases
          have hkeys' := settled_of_keys (s := { s.skipGaps with
            keys := [if (some k).any (isStale s.skipGaps.cursor) then none else some k] })
            (by simp [hstale])
          rwa [skipGaps_tokens] at hkeys'
        split at h
        · exact Option.some.inj h ▸ hsettled.tokens
        · exact hsettled.run? h

end Unimported.Yaml.Scanner
