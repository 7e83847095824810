import Unimported.Proofs.Text.Run
import Unimported.Yaml.Scalar

/-!
# `Unimported.Proofs.Yaml.Plain`: where a plain scalar ends

A plain scalar ends at a colon with white space behind it, at a comment, or with the text.
If its first line has no such colon, then it ends in a place from which no key can reach
back to its start: on a later line, in front of a comment, or at the end of the text.

- `hasValueMark` tells whether the line at hand has a colon that ends a plain scalar.
- `plain?_after` is where a plain scalar without one ends.
- `plain?_text_ne_nil`: a plain scalar has at least the character it starts with.
-/

set_option autoImplicit false

namespace Unimported.Yaml

/-- Whether a colon with white space behind it stands on the line at hand, in front of any
comment. -/
def hasValueMark : List Char → Bool
  | [] => false
  | ch :: rest =>
    if isBreak ch then false
    else if ch == ':' && rest.head?.all isGapChar then true
    else if isSpaceOrTab ch && rest.head? == some '#' then false
    else hasValueMark rest

namespace Cursor

variable {c after : Cursor} {g : Gap} {line indent n : Nat} {broken : Bool}

/-- The cursor is on a later line, or what is left of the line has no colon that makes a
key, perhaps because a comment starts here. -/
def IsClear (line : Nat) (c : Cursor) : Prop :=
  line < c.line ∨ c.line = line ∧ c.atDocumentMark = false ∧
    (hasValueMark c.rest = false ∨ c.rest.head? = some '#')

/-- A document mark stands at the start of a line. -/
theorem atDocumentMark_of_column (h : 0 < c.column) : c.atDocumentMark = false := by
  simp [atDocumentMark, Nat.ne_of_gt h]

/-- A line that is clear is so behind a blank. -/
theorem isClear_skip_blank {ch : Char} {rest : List Char} (h : c.IsClear line)
    (hrest : c.rest = ch :: rest) (hch : isSpaceOrTab ch) : (c.skip 1).IsClear line := by
  refine h.imp id fun ⟨hline, _, h⟩ =>
    ⟨hline, atDocumentMark_of_column (Nat.succ_pos c.column), ?_⟩
  have hbreak : isBreak ch = false := by
    rcases Bool.or_eq_true _ _ ▸ hch with hch | hch <;> simp [beq_iff_eq.mp hch, isBreak]
  have hne : ch ≠ ':' ∧ ch ≠ '#' := by
    rcases Bool.or_eq_true _ _ ▸ hch with hch | hch <;> simp [beq_iff_eq.mp hch]
  rw [hrest] at h
  simp only [skip, hrest, List.drop_succ_cons, List.drop_zero]
  rcases h with h | h
  · by_cases hcomment : rest.head? = some '#'
    · exact .inr hcomment
    · left
      simpa [hasValueMark, hbreak, hne.1, hch, hcomment] using h
  · exact absurd (Option.some.inj h) hne.2

/-- A line that is clear is so behind a line break. -/
theorem isClear_skipBreak (h : c.IsClear line) : c.skipBreak.IsClear line := by
  have hle : line ≤ c.line := h.elim Nat.le_of_lt fun h => Nat.le_of_eq h.1.symm
  exact .inl (Nat.lt_succ_of_le hle)

/-- White space is read one blank or one line break after the other, up to a character of
another kind. -/
theorem gapWithin_induct {R : Cursor → Prop}
    (hblank : ∀ c ch rest, c.rest = ch :: rest → isSpaceOrTab ch → R c → R (c.skip 1))
    (hbreak : ∀ c ch rest, c.rest = ch :: rest → isBreak ch → R c → R c.skipBreak)
    (h : gapWithin indent n broken c = some (g, after)) (hc : R c) :
    R after ∧ after.rest.head?.any isGapChar = false := by
  induction n generalizing broken c g with
  | zero => cases h
  | succ n ih =>
    simp only [gapWithin] at h
    -- What comes next is nothing, a blank, a line break, or a character of another kind.
    split at h
    next hrest =>
      obtain ⟨-, rfl⟩ := Prod.mk.inj (Option.some.inj h)
      exact ⟨hc, by simp [hrest]⟩
    next ch rest hrest =>
      split at h
      next hch =>
        split at h
        · cases h
        · obtain ⟨g₁, hg, -⟩ := exists_of_map_eq_some h fun _ => rfl
          exact ih hg (hblank c ch rest hrest hch hc)
      next hnoBlank =>
        split at h
        next hch =>
          obtain ⟨g₁, hg, -⟩ := exists_of_map_eq_some h fun _ => rfl
          exact ih hg (hbreak c ch rest hrest hch hc)
        next hnoBreak =>
          obtain ⟨-, rfl⟩ := Prod.mk.inj (Option.some.inj h)
          exact ⟨hc, by simp [hrest, isGapChar, hnoBlank, hnoBreak]⟩

end Cursor

namespace Scalar

variable {c after : Cursor} {line n : Nat} {word : List Char} {p : Plain}

/-- What stands behind a word: nothing, white space, or a colon in front of it. -/
def EndsWord (c : Cursor) : Prop :=
  c.rest = [] ∨ c.rest.head?.any isGapChar ∨ (c.rest.head? = some ':' ∧ c.gapAfter 1)

/-- There is a gap behind a character if white space or nothing comes next. -/
theorem gapAfter_one {ch : Char} {rest : List Char} (h : c.rest = ch :: rest) :
    c.gapAfter 1 = rest.head?.all isGapChar := by
  cases rest <;> simp [Cursor.gapAfter, h]

/-- A word stays on its line and has no colon that makes a key. -/
theorem wordWithin_eq (h : wordWithin false n c = some (word, after)) :
    after.line = c.line ∧ hasValueMark after.rest = hasValueMark c.rest ∧ EndsWord after ∧
      (after = c ∨ word ≠ [] ∧ c.column < after.column) := by
  induction n generalizing c word with
  | zero => cases h
  | succ n ih =>
    simp only [wordWithin, Bool.false_and, Bool.or_false, if_neg Bool.false_ne_true] at h
    -- A word ends at the end of the text, at white space, or at a colon with a gap behind it.
    split at h
    next hrest =>
      obtain ⟨-, rfl⟩ := Prod.mk.inj (Option.some.inj h)
      exact ⟨rfl, rfl, .inl hrest, .inl rfl⟩
    next ch rest hrest =>
      split at h
      next hgap =>
        obtain ⟨-, rfl⟩ := Prod.mk.inj (Option.some.inj h)
        exact ⟨rfl, rfl, .inr (.inl (by simpa [hrest] using hgap)), .inl rfl⟩
      next hgap =>
        split at h
        next hcolon =>
          obtain ⟨-, rfl⟩ := Prod.mk.inj (Option.some.inj h)
          simp only [Bool.and_eq_true, beq_iff_eq] at hcolon
          refine ⟨rfl, rfl, .inr (.inr ⟨?_, hcolon.2⟩), .inl rfl⟩
          rw [hrest, List.head?_cons, hcolon.1]
        next hcolon =>
          obtain ⟨word₁, hw, rfl⟩ := exists_of_map_eq_some h fun _ => rfl
          obtain ⟨hline, hmark, hends, hcolumn⟩ := ih hw
          have hlt : c.column < after.column := by
            rcases hcolumn with rfl | ⟨-, hlt⟩
            · exact Nat.lt_succ_self _
            · exact Nat.lt_of_succ_lt hlt
          refine ⟨hline, hmark.trans ?_, hends, .inr ⟨nofun, hlt⟩⟩
          rw [gapAfter_one hrest] at hcolon
          simp only [isGapChar, Bool.or_eq_true, not_or, Bool.not_eq_true] at hgap
          simp [hasValueMark, hrest, hgap, hcolon, Cursor.skip]

/-- Where a key cannot reach back to a line: on a later line, at the end of the text, or
in front of a comment. -/
def IsOutOfReach (line : Nat) (c : Cursor) : Prop :=
  line < c.line ∨ c.line = line ∧ (c.rest = [] ∨ c.rest.head? = some '#')

/-- Where a word ends on a line that has no colon for a key, the text ends, or white space
follows. -/
theorem EndsWord.rest_eq_nil (h : EndsWord c) (hmark : hasValueMark c.rest = false)
    (hgap : c.rest.head?.any isGapChar = false) : c.rest = [] := by
  rcases h with h | h | ⟨hcolon, hafter⟩
  · exact h
  · simp [hgap] at h
  · obtain ⟨rest, hrest⟩ := List.head?_eq_some_iff.mp hcolon
    rw [gapAfter_one hrest] at hafter
    simp [hasValueMark, hrest, hafter, isBreak] at hmark

/-- The words of a plain scalar lead out of the reach of a key, if its line is clear. -/
theorem plainWithin_isOutOfReach {between : Gap} (h : plainWithin false 0 n between c = some p)
    (hc : c.IsClear line) (hgap : c.rest.head?.any isGapChar = false) :
    IsOutOfReach line p.after := by
  induction n generalizing between c p with
  | zero => cases h
  | succ n ih =>
    simp only [plainWithin] at h
    -- The scalar ends in front of a mark of a document or a comment, or it has another word.
    split at h
    next hstart =>
      obtain rfl := Option.some.inj h
      refine hc.imp id fun ⟨hline, hmark, _⟩ => ⟨hline, .inr ?_⟩
      simpa [hmark, Cursor.startsWith] using hstart
    next hstart =>
      have hcomment : c.rest.head? ≠ some '#' := fun hhead => by
        simp [Cursor.startsWith, hhead] at hstart
      split at h
      · cases h
      next last hword =>
        obtain rfl := Option.some.inj h
        refine hc.imp id fun ⟨hline, _, hmark⟩ => ⟨hline, .inl ?_⟩
        obtain ⟨-, -, hends, rfl | ⟨hne, -⟩⟩ := wordWithin_eq hword
        · exact hends.rest_eq_nil (hmark.resolve_right hcomment) hgap
        · exact absurd rfl hne
      next word after _ hword =>
        obtain ⟨hline, hmark, hends, hcolumn⟩ := wordWithin_eq hword
        have hafter : after.IsClear line := by
          refine hc.imp (hline ▸ ·) fun ⟨hc, hdoc, hclear⟩ => ⟨hline.trans hc, ?_, .inl ?_⟩
          · rcases hcolumn with rfl | ⟨-, hlt⟩
            · exact hdoc
            · exact Cursor.atDocumentMark_of_column (Nat.zero_lt_of_lt hlt)
          · exact hmark.trans (hclear.resolve_right hcomment)
        -- Where white space follows the word, so may another word.
        split at h
        next hblank =>
          split at h
          · cases h
          next g next hg =>
            obtain ⟨hnext, hhead⟩ := Cursor.gapWithin_induct
              (fun c ch rest hrest hch h => Cursor.isClear_skip_blank h hrest hch)
              (fun c ch rest hrest hch h => Cursor.isClear_skipBreak h) hg hafter
            simp only [Bool.not_false, Bool.true_and, Nat.not_lt_zero, decide_false,
              if_neg Bool.false_ne_true] at h
            obtain ⟨more, hmore, rfl⟩ := Option.map_eq_some_iff.mp h
            exact ih (p := more) hmore hnext hhead
        next hblank =>
          obtain rfl := Option.some.inj h
          refine hafter.imp id fun ⟨hline, _, hclear⟩ => ⟨hline, ?_⟩
          rcases hclear with hclear | hclear
          · exact .inl (hends.rest_eq_nil hclear (by simpa using hblank))
          · exact .inr hclear

/-- A plain scalar whose line has no colon for a key ends out of the reach of one. -/
theorem plain?_after (h : plain? false 0 c = some p) (hdoc : c.atDocumentMark = false)
    (hgap : c.rest.head?.any isGapChar = false) (hmark : hasValueMark c.rest = false) :
    IsOutOfReach c.line p.after :=
  plainWithin_isOutOfReach h (.inr ⟨rfl, hdoc, .inl hmark⟩) hgap

/-- A plain scalar has at least the character that it starts with. -/
theorem plain?_text_ne_nil {indent : Nat} {ch : Char} {rest : List Char}
    (h : plain? false indent c = some p) (hrest : c.rest = ch :: rest)
    (hdoc : c.atDocumentMark = false) (hgap : isGapChar ch = false) (hne : ch ≠ '#')
    (hcolon : ch ≠ ':') : p.text ≠ [] := by
  have hstart : (c.atDocumentMark || c.startsWith '#') = false := by
    simp [hdoc, Cursor.startsWith, hrest, hne]
  -- The first character is taken into the first word, whatever ends this one.
  have hword : ∀ n word after, wordWithin false n c = some (word, after) → word ≠ [] := by
    rintro (_ | n) word after hw
    · cases hw
    · simp only [wordWithin, hrest, hgap, beq_eq_false_iff_ne.mpr hcolon, Bool.false_and,
        Bool.or_false, if_neg Bool.false_ne_true] at hw
      obtain ⟨more, -, rfl⟩ := exists_of_map_eq_some hw fun _ => rfl
      exact List.cons_ne_nil _ _
  simp only [plain?, plainWithin, hstart, if_neg Bool.false_ne_true] at h
  split at h
  · cases h
  next hw => exact absurd rfl (hword _ _ _ hw)
  next word after _ hw =>
    have hne := hword _ _ _ hw
    split at h
    · split at h
      · cases h
      · split at h
        · obtain rfl := Option.some.inj h
          simp [hne]
        · obtain ⟨more, -, rfl⟩ := Option.map_eq_some_iff.mp h
          simp [hne]
    · obtain rfl := Option.some.inj h
      simp [hne]

end Scalar

end Unimported.Yaml
