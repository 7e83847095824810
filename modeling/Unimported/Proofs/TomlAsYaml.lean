import Unimported.Config.OfToml
import Unimported.Proofs.QuotedKey
import Unimported.Proofs.Toml.FirstStatement
import Unimported.Proofs.Yaml.Opening
import Unimported.Proofs.Yaml.Root

/-!
# `Unimported.Proofs.TomlAsYaml`: TOML documents read as YAML

A TOML document with a statement hardly ever holds a configuration in YAML, because its
first tokens already tell that no mapping can follow. A header is a sequence, a key in
quotes is a scalar in front of another one, and a key without quotes is the start of a plain
scalar. Only a colon with white space behind it makes a key of that scalar, and the colon
must stand on its line. In front of all that, both languages pass over the same blank lines
and comments, unless one of the characters ends a line in YAML only.

- `IsUnmistakable` is what a text must be for this.
- `exists_skipGaps` passes over the blank lines and comments.
- `isBarren_of_startsStatement` reads the first tokens of the first statement.
- `ofYamlText?_of_isUnmistakable`: such a text holds no configuration in YAML, or the one
  that it holds in TOML.
-/

set_option autoImplicit false

namespace Unimported

open Yaml

/-- The characters that end a line in YAML and none in TOML. -/
def yamlBreaks : List Char :=
  ['\u0085', '\u2028', '\u2029']

/-- Whether a TOML text cannot be taken for a YAML mapping: what stands before its first
statement has the same lines in both languages, and if the statement begins with a key
without quotes, no colon with white space behind it stands on its line. -/
def IsUnmistakable (text : List Char) : Prop :=
  (∀ ch ∈ Toml.preamble text, ch ∉ yamlBreaks) ∧
    ((Toml.content text).head?.any Toml.isBare → hasValueMark (Toml.content text) = false)

instance (text : List Char) : Decidable (IsUnmistakable text) :=
  @instDecidableAnd _ _ (List.decidableBAll _ _) inferInstance

/-! ### The preamble -/

/-- A printable character is no line break of YAML, but for the three that are so in YAML only. -/
theorem isBreak_of_isPrintable {ch : Char} (h : Toml.isPrintable ch) (hch : ch ∉ yamlBreaks) :
    isBreak ch = false := by
  simp only [yamlBreaks, List.mem_cons, List.not_mem_nil, or_false, not_or] at hch
  have hne : ch ≠ '\n' ∧ ch ≠ '\r' := by
    constructor <;> rintro rfl <;> exact absurd h (by decide)
  simp [isBreak, hch, hne]

/-- Blanks are spaces, or a tab follows the first spaces. -/
theorem spaces_or_tab {blanks : List Char} (h : ∀ ch ∈ blanks, Toml.isSpaceOrTab ch)
    (rest : List Char) : (∀ ch ∈ blanks, ch = ' ') ∨
      ((blanks ++ rest).dropWhile (· == ' ')).head? = some '\t' := by
  induction blanks with
  | nil => exact .inl (fun _ hch => absurd hch List.not_mem_nil)
  | cons ch blanks ih =>
    obtain ⟨hch, hblanks⟩ := List.forall_mem_cons.mp h
    rcases Bool.or_eq_true _ _ ▸ hch with hch | hch
    · obtain rfl := beq_iff_eq.mp hch
      refine (ih hblanks).imp (fun hspaces => List.forall_mem_cons.mpr ⟨rfl, hspaces⟩) ?_
      simp
    · obtain rfl := beq_iff_eq.mp hch
      simp

namespace Yaml.Scanner

variable {c : Cursor}

/-- At the start of a stream without a byte order mark, the blanks of a line and its comment are
stepped over. -/
theorem behindLine_start (h : c.rest.head? ≠ some '\ufeff') :
    (start c).behindLine.rest = behindComment (c.rest.dropWhile (· == ' ')) := by
  rw [behindLine_rest h]
  simp [start, inFlow]

/-- A scanner gets past the blanks at the start of a line, unless one of them is a tab. -/
theorem behindLine_blanks {blanks tail : List Char} (hblanks : ∀ ch ∈ blanks, Toml.isSpaceOrTab ch)
    (hc : c.rest = blanks ++ tail)
    (htail : ∀ ch, tail.head? = some ch → ch ≠ ' ' ∧ ch ≠ '\ufeff') :
    (start c).behindLine.rest.head? = some '\t' ∨
      (start c).behindLine.rest = behindComment tail := by
  have hhead : c.rest.head? ≠ some '\ufeff' := by
    rw [hc]
    cases blanks with
    | nil => exact fun heq => (htail _ heq).2 rfl
    | cons ch blanks =>
      intro heq
      obtain rfl := Option.some.inj heq
      exact absurd (hblanks _ List.mem_cons_self) (by decide)
  rw [behindLine_start hhead, hc]
  -- YAML passes over spaces at the start of a line, but not over tabs.
  rcases spaces_or_tab hblanks tail with hspaces | htab
  · have hstop : StopsAt (· == ' ') tail := by
      rintro ch rest rfl
      exact beq_eq_false_iff_ne.mpr (htail ch rfl).1
    right
    rw [dropWhile_append (by simpa using hspaces) hstop]
  · left
    rw [behindComment, if_neg (by rw [htab]; decide)]
    exact htab

/-- A scanner stops behind a line that goes on with a token. -/
theorem skipGapsWithin_stop {n : Nat}
    (h : (start c).behindLine.rest.head?.any isBreak = false) :
    skipGapsWithin (n + 1) (start c) = start (start c).behindLine := by
  rw [skipGapsWithin_succ]
  split
  · rfl
  next ch rest hrest =>
    rw [hrest] at h
    exact if_neg (by simpa using h)

/-- A line that holds nothing else is passed over. -/
theorem skipGapsWithin_break {n : Nat} {br rest : List Char}
    (hbr : br = ['\n'] ∨ br = ['\r', '\n']) (h : (start c).behindLine.rest = br ++ rest) :
    ∃ c', c'.rest = rest ∧ skipGapsWithin (n + 1) (start c) = skipGapsWithin n (start c') := by
  refine ⟨(start c).behindLine.skipBreak, ?_, ?_⟩
  · rcases hbr with rfl | rfl <;> simp [Cursor.skipBreak, h]
  · rw [skipGapsWithin_succ]
    rcases hbr with rfl | rfl <;> rw [h] <;> rfl

/-- The end of a line in TOML ends the comment before it in YAML. -/
theorem behindComment_append {comment br rest : List Char}
    (hshape : comment = [] ∨ comment.head? = some '#' ∧ ∀ ch ∈ comment, Toml.isPrintable ch)
    (hcomment : ∀ ch ∈ comment, ch ∉ yamlBreaks) (hbr : br = ['\n'] ∨ br = ['\r', '\n']) :
    behindComment (comment ++ (br ++ rest)) = br ++ rest := by
  have hstop : StopsAt (fun ch => !isBreak ch) (br ++ rest) := by
    rcases hbr with rfl | rfl <;> exact stopsAt_cons (by decide) _
  rcases hshape with rfl | ⟨hhead, hprintable⟩
  · rcases hbr with rfl | rfl <;> rfl
  · have hline : ∀ ch ∈ comment, (!isBreak ch) = true := fun ch hch => by
      simp [isBreak_of_isPrintable (hprintable ch hch) (hcomment ch hch)]
    rw [behindComment, if_pos (by rw [List.head?_append, hhead]; rfl)]
    exact dropWhile_append hline hstop

/-- Blank lines and comments are passed over up to the first statement, or to a tab. -/
theorem skipGapsWithin_leads {pre rest : List Char} (h : Toml.Leads pre rest)
    (hpre : ∀ ch ∈ pre, ch ∉ yamlBreaks)
    (hrest : ∀ ch, rest.head? = some ch → isGapChar ch = false ∧ ch ≠ '#' ∧ ch ≠ '\ufeff')
    {n : Nat} (hn : pre.length < n) (hc : c.rest = pre ++ rest) :
    ∃ c', skipGapsWithin n (start c) = start c' ∧
      (c'.rest = rest ∨ c'.rest.head? = some '\t') := by
  induction h generalizing n c with
  | @blanks blanks rest hblanks =>
    obtain ⟨n, rfl⟩ : ∃ m, n = m + 1 := ⟨n - 1, by omega⟩
    have hcomment : behindComment rest = rest :=
      if_neg fun hhead => (hrest _ hhead).2.1 rfl
    have htail : ∀ ch, rest.head? = some ch → ch ≠ ' ' ∧ ch ≠ '\ufeff' := by
      refine fun ch hch => ⟨?_, (hrest ch hch).2.2⟩
      rintro rfl
      exact absurd (hrest _ hch).1 (by decide)
    rcases behindLine_blanks hblanks hc htail with htab | hbehind
    · exact ⟨_, skipGapsWithin_stop (by rw [htab]; rfl), .inr htab⟩
    · rw [hcomment] at hbehind
      refine ⟨_, skipGapsWithin_stop ?_, .inl hbehind⟩
      rw [hbehind, Option.any_eq_false]
      exact fun ch hch => by simpa using (Bool.or_eq_false_iff.mp (hrest ch hch).1).2
  -- A comment without a line break behind it reaches to the end of the text.
  | @comment blanks comment hblanks hcomment =>
    obtain ⟨n, rfl⟩ : ∃ m, n = m + 1 := ⟨n - 1, by omega⟩
    have hbehind : behindComment ('#' :: comment) = [] := by
      rw [behindComment_comment, List.dropWhile_eq_nil_iff]
      intro ch hch
      rcases List.mem_cons.mp hch with rfl | hch'
      · decide
      · have hbreak := isBreak_of_isPrintable (hcomment ch hch') (hpre ch (by simp [hch']))
        simp [hbreak]
    rw [List.append_nil] at hc
    rcases behindLine_blanks hblanks hc (by simp) with htab | hline
    · exact ⟨_, skipGapsWithin_stop (by rw [htab]; rfl), .inr htab⟩
    · rw [hbehind] at hline
      exact ⟨_, skipGapsWithin_stop (by rw [hline]; rfl), .inl hline⟩
  | @line blanks comment br pre rest hblanks hshape hbr hleads ih =>
    obtain ⟨n, rfl⟩ : ∃ m, n = m + 1 := ⟨n - 1, by omega⟩
    have htail : ∀ ch, (comment ++ (br ++ (pre ++ rest))).head? = some ch →
        ch ≠ ' ' ∧ ch ≠ '\ufeff' := by
      rcases hshape with rfl | ⟨hhead, -⟩
      · rcases hbr with rfl | rfl <;> simp
      · simp [List.head?_append, hhead]
    simp only [List.mem_append] at hpre
    rw [show blanks ++ comment ++ br ++ pre ++ rest =
      blanks ++ (comment ++ (br ++ (pre ++ rest))) by simp] at hc
    -- Unless a tab is in the way, the line is passed over, and the next ones by induction.
    rcases behindLine_blanks hblanks hc htail with htab | hbehind
    · exact ⟨_, skipGapsWithin_stop (by rw [htab]; rfl), .inr htab⟩
    · rw [behindComment_append hshape (fun ch hch => hpre ch (.inl (.inl (.inr hch)))) hbr]
        at hbehind
      obtain ⟨c', hc', heq⟩ := skipGapsWithin_break (n := n) hbr hbehind
      rw [heq]
      refine ih (fun ch hch => hpre ch (.inr hch)) hrest ?_ hc'
      have hpos : 0 < br.length := by rcases hbr with rfl | rfl <;> decide
      simp only [List.length_append] at hn
      omega

/-- A mark of the byte order at the start of a text is one more blank. -/
theorem skipGapsWithin_mark {n : Nat} (hcolumn : c.column = 0)
    (hhead : c.rest.head? = some '\ufeff') :
    skipGapsWithin (n + 1) (start c) = skipGapsWithin (n + 1) (start (c.skip 1)) := by
  have hbehind : (start c).behindLine = (start (c.skip 1)).behindLine := by
    have hnot : ¬ ((c.skip 1).column = 0 ∧ (c.skip 1).head? = some '\ufeff') :=
      fun h => absurd h.1 (Nat.succ_ne_zero _)
    have hmark : (start c).cursor.column = 0 ∧ (start c).cursor.head? = some '\ufeff' :=
      ⟨hcolumn, hhead⟩
    simp only [behindLine]
    rw [if_pos hmark, if_neg (by exact hnot)]
    rfl
  rw [skipGapsWithin_succ, skipGapsWithin_succ, hbehind]
  rfl

end Yaml.Scanner

/-! ### The start of a statement -/

/-- A character of a key without quotes means nothing to a scanner. -/
theorem notMem_marks_of_isBare {ch : Char} (h : Toml.isBare ch) :
    ch ∉ '.' :: '\ufeff' :: Scanner.marks := by
  have hbare : ('.' :: '\ufeff' :: Scanner.marks).all (fun d => !Toml.isBare d) = true := by
    decide
  intro hmem
  simpa [h] using List.all_eq_true.mp hbare ch hmem

/-- A statement starts with a bracket, a quote or a bare character. -/
theorem Toml.StartsStatement.head {text : List Char} (h : Toml.StartsStatement text) :
    ∃ ch rest, text = ch :: rest ∧ (ch = '[' ∨ ch = '"' ∨ ch = '\'' ∨ Toml.isBare ch) := by
  cases h with
  | header rest => exact ⟨_, rest, rfl, .inl rfl⟩
  | quoted hline _ =>
    simp only [Toml.lineString?] at hline
    split at hline
    · exact ⟨_, _, rfl, .inr (.inl rfl)⟩
    · exact ⟨_, _, rfl, .inr (.inr (.inl rfl))⟩
    · cases hline
  | @bare word after hne hword _ _ =>
    obtain ⟨ch, word, rfl⟩ := List.exists_cons_of_ne_nil hne
    exact ⟨ch, _, rfl, .inr (.inr (.inr (hword ch List.mem_cons_self)))⟩

/-- The character that a statement starts with is neither white space nor a mark that is
passed over. -/
theorem Toml.StartsStatement.head_ne {text : List Char} (h : Toml.StartsStatement text)
    (ch : Char) (hch : text.head? = some ch) :
    isGapChar ch = false ∧ ch ≠ '#' ∧ ch ≠ '\ufeff' := by
  obtain ⟨d, rest, rfl, hd⟩ := h.head
  obtain rfl := Option.some.inj hch
  rcases hd with rfl | rfl | rfl | hbare
  · decide
  · decide
  · decide
  · have hmarks := notMem_marks_of_isBare hbare
    refine ⟨Scanner.isGapChar_of_notMem_marks fun hmem => hmarks (by simp [hmem]), ?_, ?_⟩
    · rintro rfl
      exact hmarks (by decide)
    · rintro rfl
      exact hmarks (by decide)

namespace Yaml.Scanner

variable {c : Cursor} {s s' : Scanner} {front : List Token} {n : Nat}

/-! ### The first tokens -/

/-- A stream whose first tokens may become a key holds no configuration if it holds none
with and without that key. -/
theorem Open.ofTokens?_eq_none (hs : Open front s) (h : s.run? n = some s')
    (hfront : Config.IsBarren front)
    (hkeyed : Config.IsBarren (.blockMappingStart :: .key :: front)) :
    Config.ofTokens? s'.tokens = none := by
  rcases hs.run? h with hprefix | hprefix | hprefix
  · exact hfront _ hprefix
  · exact Config.isBarren_key _ ((List.prefix_append [Token.key] front).trans hprefix)
  · exact hkeyed _ hprefix

/-- A stream that begins with a bracket holds no configuration. -/
theorem ofTokens?_header {rest : List Char} (hc : c.rest = '[' :: rest) {s₁ : Scanner}
    (hfetch : (start c).fetch? '[' = some s₁) (h : s₁.run? n = some s') :
    Config.ofTokens? s'.tokens = none := by
  have hdoc : c.atDocumentMark = false := by simp [Cursor.atDocumentMark, hc]
  rw [fetch?_bracket hdoc] at hfetch
  exact (open_flowSequence hfetch).ofTokens?_eq_none h Config.isBarren_flowSequence
    Config.isBarren_sequenceKey

/-- Behind a part of a key comes the sign that a plain scalar starts with. -/
theorem run?_keyGoesOn {o : Option KeyCandidate} (hindents : s.indents = [])
    (hkeys : s.keys = [o]) (hrequired : ∀ k ∈ o, k.required = false)
    (hkey : s.keyAllowed = false) (hcolumn : 0 < s.cursor.column)
    (hgoes : Toml.KeyGoesOn s.cursor.rest) (h : s.run? n = some s') :
    ∃ (m : Nat) (s₁ : Scanner) (text : List Char), s₁.run? m = some s' ∧
      (s₁.keys = [none] ∨ s₁.keys = [o]) ∧ text ≠ [] ∧
      s₁.tokens = s.tokens ++ [.scalar .plain text] := by
  -- The sign is a dot or an equals sign, behind blanks at most.
  obtain ⟨ch, rest, hrest, hch⟩ : ∃ ch rest, s.cursor.rest.dropWhile isSpaceOrTab = ch :: rest ∧
      (ch = '.' ∨ ch = '=') := by
    rcases hgoes with hdot | hequals
    · obtain ⟨rest, hrest⟩ := List.head?_eq_some_iff.mp hdot
      exact ⟨'.', rest, hrest, .inl rfl⟩
    · obtain ⟨rest, hrest⟩ := List.head?_eq_some_iff.mp hequals
      exact ⟨'=', rest, hrest, .inr rfl⟩
  cases n with
  | zero => cases h
  | succ n =>
    simp only [run?] at h
    split at h
    · cases h
    next s₁ ended hnext =>
      obtain ⟨rfl, hkeys₁, text, htext, htokens⟩ :=
        next?_sign hindents hkeys hrequired hkey hcolumn hrest hch hnext
      exact ⟨n, s₁, text, h, hkeys₁, htext, htokens⟩

/-- A stream that begins with a key in quotes, as TOML goes on behind it, holds no configuration. -/
theorem ofTokens?_quoted {quote : Char} {rest name after : List Char}
    (hquote : quote = '"' ∨ quote = '\'') (hc : c.rest = quote :: rest)
    (hline : Toml.lineString? (quote :: rest) = some (name, after))
    (hgoes : Toml.KeyGoesOn after) {s₁ : Scanner} (hfetch : (start c).fetch? quote = some s₁)
    (h : s₁.run? n = some s') : Config.ofTokens? s'.tokens = none := by
  have hdoc : c.atDocumentMark = false := by
    rcases hquote with rfl | rfl <;> simp [Cursor.atDocumentMark, hc]
  have hnext : after.head? ≠ some '\'' := fun hhead => by
    obtain ⟨more, rfl⟩ := List.head?_eq_some_iff.mp hhead
    simp [Toml.KeyGoesOn, Toml.skipBlanks, Toml.isSpaceOrTab] at hgoes
  rw [fetch?_quote hquote hdoc] at hfetch
  obtain ⟨style, text, c₁, hread, rfl⟩ := exists_of_fetchQuoted?_start hfetch
  obtain ⟨rfl, hcolumn⟩ := quoted_ends_together hc hline hread hnext
  obtain ⟨m, s₂, text₂, hrun, hkeys, -, htokens⟩ :=
    run?_keyGoesOn rfl rfl (by simp) rfl hcolumn hgoes h
  have hopen := open_of_keys hkeys rfl
  rw [htokens] at hopen
  exact hopen.ofTokens?_eq_none hrun (Config.isBarren_scalars _ _ _ _)
    (Config.isBarren_scalarKey _ _ _ _)

/-- A document mark that does not start with a dot has three dashes, and white space. -/
theorem exists_of_atDocumentMark (h : c.atDocumentMark) (hdot : c.rest.head? ≠ some '.') :
    ∃ rest, c.rest = '-' :: '-' :: '-' :: rest ∧ rest.head?.all isGapChar := by
  simp only [Cursor.atDocumentMark, Bool.and_eq_true, Bool.or_eq_true, beq_iff_eq] at h
  obtain ⟨⟨-, hmark⟩, hgap⟩ := h
  rcases hmark with hmark | hmark
  · have hrest : c.rest = '-' :: '-' :: '-' :: c.rest.drop 3 :=
      (List.take_append_drop 3 c.rest).symm.trans (by rw [hmark]; rfl)
    refine ⟨c.rest.drop 3, hrest, ?_⟩
    simp only [Cursor.gapAfter] at hgap
    rw [List.head?_drop]
    split at hgap
    next ch hch => simpa [hch] using hgap
    next hnone => simp [hnone]
  · refine absurd ?_ hdot
    have hhead := congrArg List.head? hmark
    rwa [List.head?_take, if_neg (by decide)] at hhead

/-- A key without quotes that is a document mark has three dashes, and no more. -/
theorem rest_of_atDocumentMark {word tail : List Char} (h : c.atDocumentMark) (hne : word ≠ [])
    (hword : ∀ ch ∈ word, Toml.isBare ch) (hstop : StopsAt Toml.isBare tail)
    (hc : c.rest = word ++ tail) : c.rest = '-' :: '-' :: '-' :: tail := by
  have hdot : c.rest.head? ≠ some '.' := fun hhead => by
    obtain ⟨ch, word, rfl⟩ := List.exists_cons_of_ne_nil hne
    rw [hc] at hhead
    obtain rfl := Option.some.inj hhead
    exact absurd (hword _ List.mem_cons_self) (by decide)
  obtain ⟨rest, hdashes, hgap⟩ := exists_of_atDocumentMark h hdot
  have hthree : ∀ ch ∈ ['-', '-', '-'], Toml.isBare ch = true :=
    List.all_eq_true.mp (by decide)
  have hstop' : StopsAt Toml.isBare rest := by
    rintro ch more rfl
    refine Bool.eq_false_iff.mpr fun hch => ?_
    have hnot : ch ∉ marks := fun hmem => notMem_marks_of_isBare hch (by simp [hmem])
    simp [isGapChar_of_notMem_marks hnot] at hgap
  -- Both ways to write the text give what is behind its first run of such characters.
  have htail : tail = rest :=
    calc tail = (word ++ tail).dropWhile Toml.isBare := (dropWhile_append hword hstop).symm
      _ = (['-', '-', '-'] ++ rest).dropWhile Toml.isBare := by rw [← hc, hdashes]; rfl
      _ = rest := dropWhile_append hthree hstop'
  rw [htail, hdashes]

/-- Three dashes are a key of TOML and the start of a document in YAML. -/
theorem ofTokens?_documentMark {rest : List Char} (hdoc : c.atDocumentMark)
    (hc : c.rest = '-' :: '-' :: '-' :: rest) (hgoes : Toml.KeyGoesOn rest) {s₁ : Scanner}
    (hfetch : (start c).fetch? '-' = some s₁) (h : s₁.run? n = some s') :
    Config.ofTokens? s'.tokens = none := by
  rw [fetch?_documentMark hdoc, fetchDocumentMark?_start] at hfetch
  obtain rfl := Option.some.inj hfetch
  have hgoes' : Toml.KeyGoesOn (c.skip 3).rest := by simpa [Cursor.skip, hc] using hgoes
  obtain ⟨m, s₂, text, hrun, hkeys, htext, htokens⟩ :=
    run?_keyGoesOn rfl rfl (by simp) rfl (Nat.succ_pos _) hgoes' h
  have hsettled := settled_of_keys (by simpa using hkeys)
  rw [htokens] at hsettled
  exact Config.isBarren_documentStart _ htext _ (hsettled.run? hrun)

/-- A stream that begins with the dash of an item holds no configuration. -/
theorem ofTokens?_entry (hdoc : c.atDocumentMark = false) (hgap : c.gapAfter 1) {s₁ : Scanner}
    (hfetch : (start c).fetch? '-' = some s₁) (h : s₁.run? n = some s') :
    Config.ofTokens? s'.tokens = none := by
  rw [fetch?_entry hdoc hgap] at hfetch
  exact Config.isBarren_blockSequence _ ((settled_blockSequence hfetch).run? h)

/-- A key without quotes on a line without a key of YAML is a scalar. -/
theorem ofTokens?_plain {ch : Char} {rest : List Char} (hc : c.rest = ch :: rest)
    (hch : Toml.isBare ch) (hdoc : c.atDocumentMark = false)
    (hgap : ch = '-' → c.gapAfter 1 = false) (hmark : hasValueMark c.rest = false)
    {s₁ : Scanner} (hfetch : (start c).fetch? ch = some s₁) (h : s₁.run? n = some s') :
    Config.ofTokens? s'.tokens = none := by
  have hmarks := notMem_marks_of_isBare hch
  have hnot : ch ∉ marks := fun hmem => hmarks (by simp [hmem])
  have hne : ch ≠ '#' ∧ ch ≠ ':' := by
    constructor <;> rintro rfl <;> exact hnot (by decide)
  have hgapChar := isGapChar_of_notMem_marks hnot
  rw [fetch?_plain (s := start c) hnot hdoc hgap] at hfetch
  obtain ⟨p, hread, rfl⟩ := exists_of_fetchPlain?_start hfetch
  have htext := Scalar.plain?_text_ne_nil hread hc hdoc hgapChar hne.1 hne.2
  have hreach := Scalar.plain?_after hread hdoc (by rw [hc]; simpa using hgapChar) hmark
  exact Config.isBarren_scalar _ htext _ (run?_of_isOutOfReach rfl rfl rfl hreach h)

/-- The first tokens of a statement tell that a stream holds no configuration. -/
theorem ofTokens?_of_startsStatement {ch : Char} {rest : List Char} (hc : c.rest = ch :: rest)
    (hstart : Toml.StartsStatement c.rest)
    (hmark : Toml.isBare ch → hasValueMark c.rest = false) {s₁ : Scanner}
    (hfetch : (start c).fetch? ch = some s₁) (h : s₁.run? n = some s') :
    Config.ofTokens? s'.tokens = none := by
  generalize htext : c.rest = text at hstart
  cases hstart with
  | header more =>
    obtain ⟨rfl, rfl⟩ := List.cons.inj (hc.symm.trans htext)
    exact ofTokens?_header hc hfetch h
  | quoted hline hgoes =>
    obtain rfl := hc.symm.trans htext
    have hquote : ch = '"' ∨ ch = '\'' := by
      simp only [Toml.lineString?] at hline
      split at hline
      next heq => exact .inl (List.cons.inj heq).1
      next heq => exact .inr (List.cons.inj heq).1
      next => cases hline
    exact ofTokens?_quoted hquote hc hline hgoes hfetch h
  | @bare word after hne hword hstop hgoes =>
    have hbare : Toml.isBare ch := by
      obtain ⟨d, word, rfl⟩ := List.exists_cons_of_ne_nil hne
      obtain ⟨rfl, -⟩ := List.cons.inj (hc.symm.trans htext)
      exact hword ch List.mem_cons_self
    -- A bare key may begin with dashes, which YAML reads as a mark of a document or an entry.
    by_cases hdoc : c.atDocumentMark
    · have hdashes := rest_of_atDocumentMark hdoc hne hword hstop htext
      obtain ⟨rfl, -⟩ := List.cons.inj (hc.symm.trans hdashes)
      exact ofTokens?_documentMark hdoc hdashes hgoes hfetch h
    · have hdoc : c.atDocumentMark = false := by simpa using hdoc
      by_cases hentry : ch = '-' ∧ c.gapAfter 1
      · obtain ⟨rfl, hgap⟩ := hentry
        exact ofTokens?_entry hdoc hgap hfetch h
      · have hgap : ch = '-' → c.gapAfter 1 = false := fun hdash => by
          simpa using not_and.mp hentry hdash
        exact ofTokens?_plain hc hbare hdoc hgap (hmark hbare) hfetch h

end Yaml.Scanner

/-! ### The whole text -/

open Yaml.Scanner in
/-- A scanner comes to the first statement of a document, or to a tab. -/
theorem exists_skipGaps {text : List Char} {ss : List Toml.Statement}
    (h : Toml.statements? text = some ss)
    (hpre : ∀ ch ∈ Toml.preamble text, ch ∉ yamlBreaks) :
    ∃ c, (start { rest := text }).skipGaps = start c ∧
      (c.rest = Toml.content text ∨ c.rest.head? = some '\t') := by
  obtain ⟨hsplit, hleads, hcontent⟩ := Toml.statements?_cases h
  have hhead : ∀ ch, (Toml.content text).head? = some ch →
      isGapChar ch = false ∧ ch ≠ '#' ∧ ch ≠ '\ufeff' := by
    rcases hcontent with ⟨hnil, -⟩ | hstart
    · simp [hnil]
    · exact hstart.head_ne
  have hlength : (Toml.preamble text).length < text.length + 1 := by
    have hle : (Toml.unmarked text).length ≤ text.length := by
      rw [Toml.unmarked]
      split <;> simp
    rw [hsplit, List.length_append] at hle
    omega
  -- Both languages pass over a mark of the byte order.
  by_cases hmark : text.head? = some '\ufeff'
  · have hskip : (start { rest := text }).skipGaps =
        skipGapsWithin (text.length + 1) (start (Cursor.skip { rest := text } 1)) :=
      skipGapsWithin_mark rfl hmark
    rw [hskip]
    refine skipGapsWithin_leads hleads hpre hhead hlength ?_
    rw [← hsplit, Toml.unmarked, if_pos hmark]
    rfl
  · refine skipGapsWithin_leads hleads hpre hhead hlength ?_
    rw [← hsplit, Toml.unmarked, if_neg hmark]

open Yaml.Scanner in
/-- A document with a statement holds no configuration in YAML. -/
theorem ofTokens?_run {text : List Char} {ss : List Toml.Statement} {n : Nat} {s' : Scanner}
    (h : Toml.statements? text = some ss) (hclear : IsUnmistakable text)
    (hrun : (start { rest := text }).run? n = some s') :
    ss = [] ∧ s'.tokens = [] ∨ Config.ofTokens? s'.tokens = none := by
  obtain ⟨c, hskip, hc⟩ := exists_skipGaps h hclear.1
  have hready : (start { rest := text }).ready? = some (start c) := by
    rw [ready?_block rfl rfl (by simp), hskip]
    rfl
  cases n with
  | zero => cases hrun
  | succ n =>
    simp only [run?] at hrun
    split at hrun
    · cases hrun
    next s₁ ended hnext =>
      rw [next?_eq, hready, Option.bind_some] at hnext
      rcases hc with hc | htab
      · obtain ⟨-, -, hcontent⟩ := Toml.statements?_cases h
        rw [← hc] at hcontent
        -- The text ends where the gaps end, or it goes on with the first statement.
        split at hnext
        next hnil =>
          have hrest : c.rest = [] := hnil
          obtain ⟨rfl, rfl⟩ := Prod.mk.inj (Option.some.inj hnext)
          obtain rfl := Option.some.inj hrun
          rcases hcontent with ⟨-, hss⟩ | hstart
          · exact .inl ⟨hss, rfl⟩
          · obtain ⟨ch, rest, hcons, -⟩ := hstart.head
            cases hrest.symm.trans hcons
        next ch rest hcons =>
          have hrest : c.rest = ch :: rest := hcons
          obtain ⟨s₂, hfetch, heq⟩ := Option.map_eq_some_iff.mp hnext
          obtain ⟨rfl, rfl⟩ := Prod.mk.inj heq
          rcases hcontent with ⟨hnil, -⟩ | hstart
          · cases hnil.symm.trans hrest
          · refine .inr (ofTokens?_of_startsStatement hrest hstart (fun hbare => ?_) hfetch hrun)
            rw [hc]
            exact hclear.2 (by rw [← hc, hrest]; simpa using hbare)
      · -- No token starts with a tab, so there is no run.
        obtain ⟨rest, hrest⟩ := List.head?_eq_some_iff.mp htab
        have hdoc : c.atDocumentMark = false := by simp [Cursor.atDocumentMark, hrest]
        rw [show (start c).cursor.rest = '\t' :: rest from hrest] at hnext
        simp only [fetch?_tab (s := start c) hdoc] at hnext
        cases hnext

/-- What holds a configuration in TOML and is unmistakable holds no other one in YAML. -/
theorem ofYamlText?_of_isUnmistakable {text : List Char} {c d : Config}
    (htoml : Config.ofTomlText? text = some c) (hclear : IsUnmistakable text)
    (hyaml : Config.ofYamlText? text = some d) : d = c := by
  rw [Config.ofTomlText?, Toml.ofText?] at htoml
  obtain ⟨entries, hentries, hc⟩ := Option.bind_eq_some_iff.mp htoml
  obtain ⟨ss, hss, hentries⟩ := Option.bind_eq_some_iff.mp hentries
  rw [Config.ofYamlText?_eq_bind] at hyaml
  obtain ⟨tokens, htokens, hd⟩ := Option.bind_eq_some_iff.mp hyaml
  simp only [tokens?] at htokens
  split at htokens
  · obtain ⟨s', hrun, rfl⟩ := Option.map_eq_some_iff.mp htokens
    rcases ofTokens?_run hss hclear hrun with ⟨rfl, hnil⟩ | hnone
    · -- Without a statement both languages leave every default.
      obtain rfl := Option.some.inj hentries
      rw [hnil] at hd
      exact (Option.some.inj hd).symm.trans (Option.some.inj hc)
    · rw [hnone] at hd
      cases hd
  · cases htokens

end Unimported
