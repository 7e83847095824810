import Mathlib.Logic.Basic
import Unimported.Yaml.Token

/-!
# `Unimported.Proofs.Yaml.Scanner`: the first tokens of a stream stay

A scanner adds tokens at the end, with one exception: where a colon turns a token into a
key, the mark of the key goes in front of that token, and maybe the start of its mapping.
Which tokens this can reach is known from the candidates that the scanner has noted.

- `next?_cases` is what one step does: the stream grows at its end (`Extends`), or the
  innermost candidate becomes a key (`KeyedAt`).
- `Settled.run?`: tokens in front of every candidate stay the first ones of the stream.
- `Open.run?`: if a candidate stands before the first tokens, one mark of a key may come
  to stand before them, and nothing else.
-/

set_option autoImplicit false

namespace Unimported.Yaml.Scanner

variable {s s' s'' : Scanner} {front : List Token}

/-! ### Candidates by depth -/

/-- The candidate of the collection at a depth. The block around all collections has depth
zero, so a depth means the same collection before and after others open inside it. -/
def noted (keys : List (Option KeyCandidate)) (depth : Nat) : Option KeyCandidate :=
  keys.reverse[depth]?.join

/-- The innermost collection has the greatest depth. -/
theorem noted_cons (o : Option KeyCandidate) (keys : List (Option KeyCandidate))
    (depth : Nat) :
    noted (o :: keys) depth = if depth = keys.length then o else noted keys depth := by
  simp only [noted, List.reverse_cons, List.getElem?_append, List.length_reverse]
  split
  next h => rw [if_neg (by omega)]
  next h =>
    rw [List.getElem?_singleton, List.getElem?_eq_none (by simpa using h)]
    split
    · rw [if_pos (by omega)]
      rfl
    · rw [if_neg (by omega)]

/-- There is a candidate only at the depth of an open collection. -/
theorem lt_length_of_noted {keys : List (Option KeyCandidate)} {depth : Nat}
    {k : KeyCandidate} (h : noted keys depth = some k) : depth < keys.length := by
  refine Nat.lt_of_not_le fun hle => ?_
  rw [noted, List.getElem?_eq_none (by simpa using hle)] at h
  cases h

/-- Closing a collection leaves the candidates around it. -/
theorem noted_drop_one {keys : List (Option KeyCandidate)} {depth : Nat} {k : KeyCandidate}
    (h : noted (keys.drop 1) depth = some k) : noted keys depth = some k := by
  cases keys with
  | nil => exact h
  | cons o keys =>
    have hlt : depth < keys.length := lt_length_of_noted h
    rwa [noted_cons, if_neg (by omega)]

/-- Dropping some candidates brings in none. -/
theorem noted_map_drop (stale : Option KeyCandidate → Bool)
    {keys : List (Option KeyCandidate)} {depth : Nat} {k : KeyCandidate}
    (h : noted (keys.map fun o => if stale o then none else o) depth = some k) :
    noted keys depth = some k := by
  simp only [noted, ← List.map_reverse, List.getElem?_map] at h ⊢
  cases hk : keys.reverse[depth]? with
  | none => simp [hk] at h
  | some o =>
    rw [hk, Option.map_some] at h
    split at h
    · cases h
    · exact h

/-! ### Streams that grow at their end -/

/-- The second scanner has more tokens at the end, and its candidates are those of the
first one or tokens behind all that the first one has. -/
structure Extends (s s' : Scanner) : Prop where
  /-- Tokens are added at the end. -/
  tokens : s.tokens <+: s'.tokens
  /-- A candidate is old, or it is a new token. -/
  keys : ∀ depth k, noted s'.keys depth = some k →
    noted s.keys depth = some k ∨ s.tokens.length ≤ k.position

namespace Extends

/-- A scanner with the same tokens and candidates extends the other. -/
theorem of_eq (htokens : s'.tokens = s.tokens) (hkeys : s'.keys = s.keys) : Extends s s' :=
  ⟨htokens ▸ List.prefix_rfl, fun _ _ h => .inl (hkeys ▸ h)⟩

/-- What extends an extension extends the first scanner. -/
theorem trans (h : Extends s s') (h' : Extends s' s'') : Extends s s'' where
  tokens := h.tokens.trans h'.tokens
  keys depth k hk := by
    rcases h'.keys depth k hk with hk | hk
    · exact h.keys depth k hk
    · exact .inr (Nat.le_trans h.tokens.length_le hk)

/-- The tokens of the second scanner, where only the keys and the rest may differ. -/
theorem push (h : Extends s s') (t : Token) : Extends s (s'.push t) :=
  h.trans ⟨List.prefix_append _ _, fun _ _ hk => .inl hk⟩

/-- Moving the cursor changes neither tokens nor candidates. -/
theorem skip (h : Extends s s') (n : Nat) : Extends s (s'.skip n) :=
  h.trans (.of_eq rfl rfl)

/-- Allowing a key, or not, changes neither tokens nor candidates. -/
theorem allowKey (h : Extends s s') (allowed : Bool) : Extends s (s'.allowKey allowed) :=
  h.trans (.of_eq rfl rfl)

end Extends

/-- Closing block collections adds their ends. -/
theorem extends_unroll (s : Scanner) (column : Option Nat) : Extends s (s.unroll column) := by
  simp only [unroll]
  split
  · exact .of_eq rfl rfl
  · exact ⟨List.prefix_append _ _, fun _ _ hk => .inl hk⟩

/-- Opening a block collection at the end adds its start. -/
theorem extends_rollHere (s : Scanner) (opening : Token) : Extends s (s.rollHere opening) := by
  simp only [rollHere, roll]
  split
  · exact .of_eq rfl rfl
  · split
    · refine ⟨?_, fun _ _ hk => .inl hk⟩
      simp
    · exact .of_eq rfl rfl

/-- Dropping the innermost candidate adds nothing. -/
theorem extends_dropKey? (h : s.dropKey? = some s') : Extends s s' := by
  simp only [dropKey?] at h
  split at h
  next k rest hkeys =>
    split at h
    · cases h
    · obtain rfl := Option.some.inj h
      refine ⟨List.prefix_rfl, fun depth k' hk => .inl ?_⟩
      rw [noted_cons] at hk
      rw [hkeys, noted_cons]
      split at hk
      · cases hk
      · rwa [if_neg ‹_›]
  next => exact Option.some.inj h ▸ .of_eq rfl rfl

/-- The token to come is noted as a candidate, behind all that there are. -/
theorem extends_noteKey? (h : s.noteKey? = some s') : Extends s s' := by
  simp only [noteKey?] at h
  split at h
  next =>
    obtain ⟨s₁, hs₁, h⟩ := Option.bind_eq_some_iff.mp h
    obtain rfl := Option.some.inj h
    refine (extends_dropKey? hs₁).trans ⟨List.prefix_rfl, fun depth k hk => ?_⟩
    rw [noted_cons] at hk
    split at hk
    · obtain rfl := Option.some.inj hk
      exact .inr (Nat.le_refl _)
    · exact .inl (noted_drop_one hk)
  next => exact Option.some.inj h ▸ .of_eq rfl rfl

/-- Dropping the candidates that can be keys no longer adds nothing. -/
theorem extends_dropStale? (h : s.dropStale? = some s') : Extends s s' := by
  simp only [dropStale?] at h
  split at h
  · cases h
  · obtain rfl := Option.some.inj h
    exact ⟨List.prefix_rfl, fun _ _ hk => .inl (noted_map_drop _ hk)⟩

/-- White space changes neither the tokens, nor the collections, nor the candidates. -/
theorem skipGapsWithin_eq (n : Nat) (s : Scanner) :
    (skipGapsWithin n s).tokens = s.tokens ∧ (skipGapsWithin n s).indents = s.indents ∧
      (skipGapsWithin n s).keys = s.keys := by
  induction n generalizing s with
  | zero => exact ⟨rfl, rfl, rfl⟩
  | succ n ih =>
    simp only [skipGapsWithin]
    split
    · exact ⟨rfl, rfl, rfl⟩
    · split
      · exact ih _
      · exact ⟨rfl, rfl, rfl⟩

/-- Stepping over gaps adds no token. -/
@[simp] theorem skipGaps_tokens (s : Scanner) : s.skipGaps.tokens = s.tokens :=
  (skipGapsWithin_eq _ s).1

/-- Stepping over gaps opens and closes nothing. -/
@[simp] theorem skipGaps_indents (s : Scanner) : s.skipGaps.indents = s.indents :=
  (skipGapsWithin_eq _ s).2.1

/-- Stepping over gaps leaves the candidates. -/
@[simp] theorem skipGaps_keys (s : Scanner) : s.skipGaps.keys = s.keys :=
  (skipGapsWithin_eq _ s).2.2

/-- Closing everything adds the ends of block collections. -/
theorem extends_closeAll? (h : s.closeAll? = some s') : Extends s s' := by
  simp only [closeAll?] at h
  obtain ⟨s₁, hs₁, h⟩ := Option.bind_eq_some_iff.mp h
  obtain rfl := Option.some.inj h
  exact ((extends_unroll s none).trans (extends_dropKey? hs₁)).allowKey false

/-! ### Tokens that are added at the end -/

/-- A directive adds its token. -/
theorem extends_fetchDirective? (h : s.fetchDirective? = some s') : Extends s s' := by
  simp only [fetchDirective?] at h
  obtain ⟨s₁, hs₁, h⟩ := Option.bind_eq_some_iff.mp h
  obtain ⟨⟨t, c⟩, -, h⟩ := Option.bind_eq_some_iff.mp h
  split at h
  · cases h
  · obtain rfl := Option.some.inj h
    exact ((extends_closeAll? hs₁).push t).trans (.of_eq rfl rfl)

/-- A document mark adds its token. -/
theorem extends_fetchDocumentMark? {t : Token} (h : s.fetchDocumentMark? t = some s') :
    Extends s s' := by
  simp only [fetchDocumentMark?] at h
  obtain ⟨s₁, hs₁, h⟩ := Option.bind_eq_some_iff.mp h
  obtain rfl := Option.some.inj h
  exact ((extends_closeAll? hs₁).push t).skip 3

/-- The start of a flow collection adds its token, and a depth without a candidate. -/
theorem extends_fetchFlowStart? {t : Token} (h : s.fetchFlowStart? t = some s') :
    Extends s s' := by
  simp only [fetchFlowStart?] at h
  obtain ⟨s₁, hs₁, h⟩ := Option.bind_eq_some_iff.mp h
  obtain rfl := Option.some.inj h
  have hopened : Extends s₁ { s₁ with keys := none :: s₁.keys } := by
    refine ⟨List.prefix_rfl, fun depth k hk => .inl ?_⟩
    rw [noted_cons] at hk
    split at hk
    · cases hk
    · exact hk
  exact ((((extends_noteKey? hs₁).trans hopened).allowKey true).push t).skip 1

/-- The end of a flow collection adds its token and takes away the innermost depth. -/
theorem extends_fetchFlowEnd? {t : Token} (h : s.fetchFlowEnd? t = some s') :
    Extends s s' := by
  simp only [fetchFlowEnd?] at h
  obtain ⟨s₁, hs₁, h⟩ := Option.bind_eq_some_iff.mp h
  obtain rfl := Option.some.inj h
  refine ((((extends_dropKey? hs₁).trans ?_).allowKey false).push t).skip 1
  split
  · exact ⟨List.prefix_rfl, fun _ _ hk => .inl (noted_drop_one hk)⟩
  · exact .of_eq rfl rfl

/-- The comma of a flow collection adds its token. -/
theorem extends_flowEntry (h : s.fetchFlowEntry? = some s') : Extends s s' := by
  rw [ fetchFlowEntry?] at h
  obtain ⟨s₁, hs₁, h⟩ := Option.bind_eq_some_iff.mp h
  obtain rfl := Option.some.inj h
  exact (((extends_dropKey? hs₁).allowKey true).push _).skip 1

/-- The dash of an item adds its token, maybe with the start of its sequence. -/
theorem extends_blockEntry (h : s.fetchBlockEntry? = some s') : Extends s s' := by
  rw [ fetchBlockEntry?] at h
  split at h
  · cases h
  · obtain ⟨s₁, hs₁, h⟩ := Option.bind_eq_some_iff.mp h
    obtain rfl := Option.some.inj h
    exact ((((extends_rollHere s _).trans (extends_dropKey? hs₁)).allowKey true).push _).skip 1

/-- The question mark of a key adds its token, maybe with the start of its mapping. -/
theorem extends_fetchKey? (h : s.fetchKey? = some s') : Extends s s' := by
  simp only [fetchKey?] at h
  split at h
  · cases h
  · obtain ⟨s₁, hs₁, h⟩ := Option.bind_eq_some_iff.mp h
    obtain rfl := Option.some.inj h
    exact ((((extends_rollHere s _).trans (extends_dropKey? hs₁)).allowKey _).push _).skip 1

/-- An anchor or an alias adds its token. -/
theorem extends_fetchAnchor? {make : List Char → Token} (h : s.fetchAnchor? make = some s') :
    Extends s s' := by
  simp only [fetchAnchor?] at h
  obtain ⟨s₁, hs₁, h⟩ := Option.bind_eq_some_iff.mp h
  split at h
  · cases h
  · obtain rfl := Option.some.inj h
    exact (((extends_noteKey? hs₁).allowKey false).push _).trans (.of_eq rfl rfl)

/-- A tag adds its token. -/
theorem extends_fetchTag? (h : s.fetchTag? = some s') : Extends s s' := by
  simp only [fetchTag?] at h
  obtain ⟨s₁, hs₁, h⟩ := Option.bind_eq_some_iff.mp h
  obtain ⟨⟨t, c⟩, -, h⟩ := Option.bind_eq_some_iff.mp h
  split at h
  · cases h
  · obtain rfl := Option.some.inj h
    exact (((extends_noteKey? hs₁).allowKey false).push t).trans (.of_eq rfl rfl)

/-- A block scalar adds its token. -/
theorem extends_fetchBlock? {literal : Bool} (h : s.fetchBlock? literal = some s') :
    Extends s s' := by
  simp only [fetchBlock?] at h
  obtain ⟨s₁, hs₁, h⟩ := Option.bind_eq_some_iff.mp h
  obtain ⟨⟨text, c⟩, -, h⟩ := Option.bind_eq_some_iff.mp h
  obtain rfl := Option.some.inj h
  exact (((extends_dropKey? hs₁).allowKey true).push _).trans (.of_eq rfl rfl)

/-- A quoted scalar adds its token. -/
theorem extends_fetchQuoted? {double : Bool} (h : s.fetchQuoted? double = some s') :
    Extends s s' := by
  simp only [fetchQuoted?] at h
  obtain ⟨s₁, hs₁, h⟩ := Option.bind_eq_some_iff.mp h
  obtain ⟨⟨text, c⟩, -, h⟩ := Option.bind_eq_some_iff.mp h
  obtain rfl := Option.some.inj h
  exact (((extends_noteKey? hs₁).allowKey false).push _).trans (.of_eq rfl rfl)

/-- A plain scalar adds its token. -/
theorem extends_fetchPlain? (h : s.fetchPlain? = some s') : Extends s s' := by
  simp only [fetchPlain?] at h
  obtain ⟨s₁, hs₁, h⟩ := Option.bind_eq_some_iff.mp h
  obtain ⟨p, -, h⟩ := Option.bind_eq_some_iff.mp h
  obtain rfl := Option.some.inj h
  exact (((extends_noteKey? hs₁).allowKey false).push _).trans (.of_eq rfl rfl)

/-! ### Keys that show late -/

/-- The candidate of the innermost collection has become a key: its mark is in front of it,
maybe with the start of its mapping. -/
structure KeyedAt (k : KeyCandidate) (s s' : Scanner) : Prop where
  /-- The tokens before the candidate have not changed. -/
  before : s.tokens.take k.position <+: s'.tokens
  /-- If the candidate was the first token, the mark is before all that were there. -/
  first : k.position = 0 → Token.key :: s.tokens <+: s'.tokens ∨
    Token.blockMappingStart :: Token.key :: s.tokens <+: s'.tokens
  /-- The candidate is gone, and the others belong to collections around its own. -/
  keys : ∃ depth, noted s.keys depth = some k ∧ ∀ depth' k', noted s'.keys depth' = some k' →
    depth' < depth ∧ noted s.keys depth' = some k'

/-- The colon of a value adds its token at the end, or puts the mark of a key before the innermost
candidate. -/
theorem fetchValue?_cases (h : s.fetchValue? = some s') :
    Extends s s' ∨ ∃ k, KeyedAt k s s' := by
  simp only [fetchValue?] at h
  split at h
  -- The candidate becomes a key: the mark is put before it, behind the start of a mapping if a
  -- new one is opened.
  next k rest hkeys =>
    obtain rfl := Option.some.inj h
    refine .inr ⟨k, ?_, ?_, rest.length, ?_, ?_⟩
    · simp only [roll, push, skip, allowKey]
      split
      · simp
      · split
        · simp [List.take_append, List.take_take]
        · simp
    · intro h0
      simp only [roll, push, skip, allowKey, h0]
      split
      · simp
      · split
        · simp
        · simp
    · rw [hkeys, noted_cons, if_pos rfl]
    · intro depth' k' hk'
      replace hk' : noted (none :: rest) depth' = some k' := by
        simp only [roll, push, skip, allowKey] at hk'
        split at hk'
        · exact hk'
        · split at hk' <;> exact hk'
      have hlt := lt_length_of_noted hk'
      rw [noted_cons] at hk'
      split at hk'
      · cases hk'
      · rw [List.length_cons] at hlt
        refine ⟨by omega, ?_⟩
        rwa [hkeys, noted_cons, if_neg ‹_›]
  next =>
    split at h
    · cases h
    · obtain rfl := Option.some.inj h
      exact .inl ((((extends_rollHere s _).allowKey _).push _).skip 1)

/-! ### One step -/

/-- Every token is added at the end, but for the mark of a key that shows late. -/
theorem fetch?_cases {ch : Char} (h : s.fetch? ch = some s') :
    Extends s s' ∨ ∃ k, KeyedAt k s s' := by
  -- One case for each kind of token, in the order in which they are tried.
  rw [fetch?] at h
  rcases ite_eq_iff.mp h with ⟨-, h⟩ | ⟨-, h⟩
  · exact .inl (extends_fetchDirective? h)
  rcases ite_eq_iff.mp h with ⟨-, h⟩ | ⟨-, h⟩
  · exact .inl (extends_fetchDocumentMark? h)
  rcases ite_eq_iff.mp h with ⟨-, h⟩ | ⟨-, h⟩
  · exact .inl (extends_fetchFlowStart? h)
  rcases ite_eq_iff.mp h with ⟨-, h⟩ | ⟨-, h⟩
  · exact .inl (extends_fetchFlowStart? h)
  rcases ite_eq_iff.mp h with ⟨-, h⟩ | ⟨-, h⟩
  · exact .inl (extends_fetchFlowEnd? h)
  rcases ite_eq_iff.mp h with ⟨-, h⟩ | ⟨-, h⟩
  · exact .inl (extends_fetchFlowEnd? h)
  rcases ite_eq_iff.mp h with ⟨-, h⟩ | ⟨-, h⟩
  · exact .inl (extends_flowEntry h)
  rcases ite_eq_iff.mp h with ⟨-, h⟩ | ⟨-, h⟩
  · exact .inl (extends_blockEntry h)
  rcases ite_eq_iff.mp h with ⟨-, h⟩ | ⟨-, h⟩
  · exact .inl (extends_fetchKey? h)
  rcases ite_eq_iff.mp h with ⟨-, h⟩ | ⟨-, h⟩
  · exact fetchValue?_cases h
  rcases ite_eq_iff.mp h with ⟨-, h⟩ | ⟨-, h⟩
  · exact .inl (extends_fetchAnchor? h)
  rcases ite_eq_iff.mp h with ⟨-, h⟩ | ⟨-, h⟩
  · exact .inl (extends_fetchAnchor? h)
  rcases ite_eq_iff.mp h with ⟨-, h⟩ | ⟨-, h⟩
  · exact .inl (extends_fetchTag? h)
  rcases ite_eq_iff.mp h with ⟨-, h⟩ | ⟨-, h⟩
  · exact .inl (extends_fetchBlock? h)
  rcases ite_eq_iff.mp h with ⟨-, h⟩ | ⟨-, h⟩
  · exact .inl (extends_fetchBlock? h)
  rcases ite_eq_iff.mp h with ⟨-, h⟩ | ⟨-, h⟩
  · exact .inl (extends_fetchQuoted? h)
  rcases ite_eq_iff.mp h with ⟨-, h⟩ | ⟨-, h⟩
  · exact .inl (extends_fetchQuoted? h)
  rcases ite_eq_iff.mp h with ⟨-, h⟩ | ⟨-, h⟩
  · exact .inl (extends_fetchPlain? h)
  · cases h

/-- The scanner in front of its next token: white space is behind it, and what ends before
the token has been closed. -/
def ready? (s : Scanner) : Option Scanner :=
  s.skipGaps.dropStale?.map fun s => s.unroll (some s.cursor.column)

/-- To read a token is to step to it and then to read it, or to close everything at the end of the
text. -/
theorem next?_eq (s : Scanner) :
    s.next? = s.ready?.bind fun s =>
      match s.cursor.rest with
      | [] => s.closeAll?.map (·, true)
      | ch :: _ => (s.fetch? ch).map (·, false) := by
  simp only [next?, ready?, Option.bind_map]
  cases s.skipGaps.dropStale? with
  | none => rfl
  | some s₁ =>
    simp only [Option.bind_eq_bind, Option.bind_some, Function.comp_apply]
    split <;> simp only [*, Option.map_eq_bind] <;> rfl

/-- Stepping to the next token adds nothing but the ends of block collections. -/
theorem extends_ready? (h : s.ready? = some s') : Extends s s' := by
  obtain ⟨s₁, hs₁, rfl⟩ := Option.map_eq_some_iff.mp h
  exact (Extends.of_eq (skipGaps_tokens s) (skipGaps_keys s)).trans
    ((extends_dropStale? hs₁).trans (extends_unroll s₁ _))

/-- What reading a token does to the tokens: they grow at the end, or the innermost
candidate becomes a key. -/
theorem readToken_cases {ended : Bool}
    (h : (match s.cursor.rest with
      | [] => s.closeAll?.map (·, true)
      | ch :: _ => (s.fetch? ch).map (·, false)) = some (s', ended)) :
    Extends s s' ∨ ∃ k, KeyedAt k s s' := by
  split at h
  · obtain ⟨s₁, hs₁, heq⟩ := Option.map_eq_some_iff.mp h
    obtain ⟨rfl, -⟩ := Prod.mk.inj heq
    exact .inl (extends_closeAll? hs₁)
  · obtain ⟨s₁, hs₁, heq⟩ := Option.map_eq_some_iff.mp h
    obtain ⟨rfl, -⟩ := Prod.mk.inj heq
    exact fetch?_cases hs₁

/-- One step closes what ends and reads a token. -/
theorem next?_cases {ended : Bool} (h : s.next? = some (s', ended)) :
    ∃ s₁, s.ready? = some s₁ ∧ (Extends s₁ s' ∨ ∃ k, KeyedAt k s₁ s') := by
  rw [next?_eq] at h
  obtain ⟨s₁, hs₁, h⟩ := Option.bind_eq_some_iff.mp h
  exact ⟨s₁, hs₁, readToken_cases h⟩

/-! ### First tokens that stay -/

/-- The stream starts with these tokens, and every candidate is behind them. -/
structure Settled (front : List Token) (s : Scanner) : Prop where
  /-- These are the first tokens. -/
  tokens : front <+: s.tokens
  /-- No candidate is one of them. -/
  keys : ∀ depth k, noted s.keys depth = some k → front.length ≤ k.position

namespace Settled

/-- First tokens that are settled stay so while tokens are added at the end. -/
theorem of_extends (hs : Settled front s) (h : Extends s s') : Settled front s' where
  tokens := hs.tokens.trans h.tokens
  keys depth k hk := by
    rcases h.keys depth k hk with hk | hk
    · exact hs.keys depth k hk
    · exact Nat.le_trans hs.tokens.length_le hk

/-- They stay so when a candidate becomes a key, since every candidate is behind them. -/
theorem of_keyedAt {k : KeyCandidate} (hs : Settled front s) (h : KeyedAt k s s') :
    Settled front s' where
  tokens := by
    obtain ⟨depth, hk, -⟩ := h.keys
    have hfront : front <+: s.tokens.take k.position :=
      List.prefix_take_iff.mpr ⟨hs.tokens, hs.keys depth k hk⟩
    exact hfront.trans h.before
  keys depth' k' hk' := by
    obtain ⟨depth, -, hothers⟩ := h.keys
    exact hs.keys depth' k' (hothers depth' k' hk').2

/-- So they stay whatever a token does. -/
theorem of_cases (hs : Settled front s) (h : Extends s s' ∨ ∃ k, KeyedAt k s s') :
    Settled front s' := by
  rcases h with hext | ⟨k, hkeyed⟩
  · exact hs.of_extends hext
  · exact hs.of_keyedAt hkeyed

/-- They stay so over one token and what comes before it. -/
theorem next? {ended : Bool} (hs : Settled front s) (h : s.next? = some (s', ended)) :
    Settled front s' := by
  obtain ⟨s₁, hs₁, hcases⟩ := next?_cases h
  exact (hs.of_extends (extends_ready? hs₁)).of_cases hcases

/-- They are the first tokens at the end of the stream. -/
theorem run? {n : Nat} (hs : Settled front s) (h : s.run? n = some s') :
    front <+: s'.tokens := by
  induction n generalizing s with
  | zero => cases h
  | succ n ih =>
    simp only [Scanner.run?] at h
    split at h
    · cases h
    next s₁ ended hnext =>
      split at h
      · exact Option.some.inj h ▸ (hs.next? hnext).tokens
      · exact ih (hs.next? hnext) h

end Settled

/-- The stream starts with these tokens, and every candidate is behind them, or it is the
first of them and stands in no collection. -/
structure Open (front : List Token) (s : Scanner) : Prop where
  /-- These are the first tokens. -/
  tokens : front <+: s.tokens
  /-- A candidate among them is the first one. -/
  keys : ∀ depth k, noted s.keys depth = some k →
    front.length ≤ k.position ∨ (depth = 0 ∧ k.position = 0)

namespace Open

/-- First tokens that are open stay so while tokens are added at the end. -/
theorem of_extends (hs : Open front s) (h : Extends s s') : Open front s' where
  tokens := hs.tokens.trans h.tokens
  keys depth k hk := by
    rcases h.keys depth k hk with hk | hk
    · exact hs.keys depth k hk
    · exact .inl (Nat.le_trans hs.tokens.length_le hk)

/-- Once the first token has become a key, no candidate is left, so that its mark stays
where it is. -/
theorem of_keyedAt {k : KeyCandidate} (hs : Open front s) (h : KeyedAt k s s') :
    Open front s' ∨ Settled (.key :: front) s' ∨
      Settled (.blockMappingStart :: .key :: front) s' := by
  obtain ⟨depth, hk, hothers⟩ := h.keys
  rcases hs.keys depth k hk with hle | ⟨rfl, h0⟩
  · refine .inl ⟨?_, fun depth' k' hk' => hs.keys depth' k' (hothers depth' k' hk').2⟩
    exact (List.prefix_take_iff.mpr ⟨hs.tokens, hle⟩).trans h.before
  · have hnone : ∀ depth' k', noted s'.keys depth' ≠ some k' :=
      fun depth' k' hk' => absurd (hothers depth' k' hk').1 (Nat.not_lt_zero _)
    have settled (mark : List Token) (hmark : mark ++ s.tokens <+: s'.tokens) :
        Settled (mark ++ front) s' :=
      ⟨((List.prefix_append_right_inj mark).mpr hs.tokens).trans hmark,
        fun depth' k' hk' => absurd hk' (hnone depth' k')⟩
    rcases h.first h0 with hmark | hmark
    · exact .inr (.inl (settled [.key] hmark))
    · exact .inr (.inr (settled [.blockMappingStart, .key] hmark))

/-- At the end of the stream they are the first tokens, or have the mark of a key before them,
maybe with the start of its mapping. -/
theorem run? {n : Nat} (hs : Open front s) (h : s.run? n = some s') :
    front <+: s'.tokens ∨ .key :: front <+: s'.tokens ∨
      .blockMappingStart :: .key :: front <+: s'.tokens := by
  induction n generalizing s with
  | zero => cases h
  | succ n ih =>
    simp only [Scanner.run?] at h
    split at h
    · cases h
    next s₁ ended hnext =>
      -- After one step the first tokens may still become a key, or it is settled that they are one.
      have hstep : Open front s₁ ∨ Settled (.key :: front) s₁ ∨
          Settled (.blockMappingStart :: .key :: front) s₁ := by
        obtain ⟨s₂, hs₂, hext | ⟨k, hkeyed⟩⟩ := next?_cases hnext
        · exact .inl ((hs.of_extends (extends_ready? hs₂)).of_extends hext)
        · exact (hs.of_extends (extends_ready? hs₂)).of_keyedAt hkeyed
      split at h
      · obtain rfl := Option.some.inj h
        exact hstep.imp Open.tokens (Or.imp Settled.tokens Settled.tokens)
      · rcases hstep with hs₁ | hs₁ | hs₁
        · exact ih hs₁ h
        · exact .inr (.inl (hs₁.run? h))
        · exact .inr (.inr (hs₁.run? h))

end Open

end Unimported.Yaml.Scanner
