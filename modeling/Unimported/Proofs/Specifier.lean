import Unimported.Specifier
import Mathlib.Data.List.Basic

/-!
# `Unimported.Proofs.Specifier`: the grammar of import clauses

`specifiers` reads a source text character by character. This file says what it finds
without saying how: `IsClause` is the shape of a clause, `IsFirstClause` is the clause
that a text starts with, and `LeftmostClauses` are the clauses that a search from left
to right finds when each search starts where the clause before it ends. The statements:

* `capture?_eq_some_iff`: `capture?` reads the clause at the start of a text.
* `leftmostClauses_captures`, `LeftmostClauses.eq_captures`: `captures` are the leftmost
  clauses, and there is only one list of leftmost clauses.
* `firsts_eq_eraseDups`: `firsts` keeps the first occurrence of each element.
* `specifiers_grammar`: the specifiers of a text are those of the grammar, and what
  follows from that for each of them.
-/

set_option autoImplicit false

namespace Unimported.Specifier

/-! ### The grammar -/

/-- The shape of a clause: a keyword, white space, and a text between two quotes, which
need not be the same. The white space may cross lines, the text may not. -/
def IsClause (keyword span text : List Char) : Prop :=
  ∃ blank opening closing,
    span = keyword ++ (blank ++ opening :: (text ++ [closing])) ∧
    (blank ≠ [] ∧ ∀ c ∈ blank, isBlank c = true) ∧
    (opening = '\'' ∨ opening = '"') ∧
    (text ≠ [] ∧ '\n' ∉ text) ∧
    (closing = '\'' ∨ closing = '"')

/-- Whether a clause of a keyword starts where `source` starts. -/
def StartsClause (keyword source : List Char) : Prop :=
  ∃ span text, IsClause keyword span text ∧ span <+: source

/-- The clause that `source` starts with. Of the clauses that start there, it is the one
with the shortest text. -/
def IsFirstClause (keyword source span text : List Char) : Prop :=
  (IsClause keyword span text ∧ span <+: source) ∧
    ∀ span' text', IsClause keyword span' text' → span' <+: source →
      text.length ≤ text'.length

/-- The texts of the clauses that a search from left to right finds in a source. It
takes the first place where a clause starts, and goes on after the end of that clause. -/
inductive LeftmostClauses (keyword : List Char) : List Char → List (List Char) → Prop
  | none {source : List Char}
      (hnone : ∀ before after, source = before ++ after → ¬StartsClause keyword after) :
      LeftmostClauses keyword source []
  | next {before span after text : List Char} {found : List (List Char)}
      (hbefore : ∀ skipped rest, before = skipped ++ rest → rest ≠ [] →
        ¬StartsClause keyword (rest ++ (span ++ after)))
      (hfirst : IsFirstClause keyword (span ++ after) span text)
      (hafter : LeftmostClauses keyword after found) :
      LeftmostClauses keyword (before ++ (span ++ after)) (text :: found)

/-! ### Reading one clause -/

/-- There are two quotes. -/
theorem isQuote_iff {c : Char} : isQuote c = true ↔ c = '\'' ∨ c = '"' := by
  simp [isQuote]

/-- A quote is no white space. -/
theorem isBlank_eq_false_of_quote {c : Char} (h : c = '\'' ∨ c = '"') :
    isBlank c = false := by
  rcases h with rfl | rfl <;> decide

/-- White space is no quote. -/
theorem isQuote_eq_false_of_isBlank {c : Char} (h : isBlank c = true) : isQuote c = false := by
  by_contra hquote
  rw [isBlank_eq_false_of_quote (isQuote_iff.mp (by simpa using hquote))] at h
  cases h

/-- A text up to a quote has no quote, and it ends on the line it starts on. -/
theorem untilQuote_eq_some_iff {source text after : List Char} :
    untilQuote source = some (text, after) ↔
      ∃ closing, isQuote closing = true ∧ source = text ++ closing :: after ∧
        ∀ c ∈ text, isQuote c = false ∧ c ≠ '\n' := by
  induction source generalizing text with
  | nil => simp [untilQuote]
  | cons c rest ih =>
    rw [untilQuote]
    by_cases hquote : isQuote c = true
    · rw [if_pos hquote]
      constructor
      · intro h
        obtain ⟨rfl, rfl⟩ : [] = text ∧ rest = after := by simpa using h
        exact ⟨c, hquote, rfl, by simp⟩
      · rintro ⟨closing, hclosing, hsource, htext⟩
        cases text with
        | nil => simp_all
        | cons d text =>
          -- The quote at the start would be a character of the text.
          obtain ⟨rfl, -⟩ : c = d ∧ _ := by simpa using hsource
          have hno := (htext c (by simp)).1
          rw [hquote] at hno
          cases hno
    · rw [if_neg hquote]
      have hcons : ∀ closing, isQuote closing = true →
          (c :: rest = text ++ closing :: after ↔
            ∃ tail, text = c :: tail ∧ rest = tail ++ closing :: after) := by
        intro closing hclosing
        cases text with
        | nil =>
          have hne : c ≠ closing := by
            rintro rfl
            exact hquote hclosing
          simp [hne]
        | cons d tail => simp [eq_comm]
      by_cases hline : c = '\n'
      · -- The line ends before any quote, so it would be part of the text.
        rw [if_pos hline]
        constructor
        · intro h
          cases h
        · rintro ⟨closing, hclosing, hsource, htext⟩
          obtain ⟨tail, rfl, -⟩ := (hcons closing hclosing).mp hsource
          exact absurd hline (htext c (by simp)).2
      · rw [if_neg hline]
        constructor
        · intro h
          obtain ⟨⟨tail, rest'⟩, htail, hpair⟩ := Option.map_eq_some_iff.mp h
          obtain ⟨rfl, rfl⟩ : c :: tail = text ∧ rest' = after := by simpa using hpair
          obtain ⟨closing, hclosing, hrest, hplain⟩ := ih.mp htail
          refine ⟨closing, hclosing, by rw [hrest, List.cons_append], ?_⟩
          intro d hd
          rcases List.mem_cons.mp hd with rfl | hd
          · exact ⟨by simpa using hquote, hline⟩
          · exact hplain d hd
        · rintro ⟨closing, hclosing, hsource, htext⟩
          obtain ⟨tail, rfl, hrest⟩ := (hcons closing hclosing).mp hsource
          have htail := ih.mpr ⟨closing, hclosing, hrest, fun d hd =>
            htext d (List.mem_cons_of_mem c hd)⟩
          rw [htail]
          rfl

/-- A quote further on in the line ends a text, though not always at that quote. -/
theorem exists_untilQuote (after : List Char) {text : List Char} {closing : Char}
    (hclosing : isQuote closing = true) (htext : '\n' ∉ text) :
    ∃ first rest, untilQuote (text ++ closing :: after) = some (first, rest) ∧
      first.length ≤ text.length := by
  induction text with
  | nil => exact ⟨[], after, by rw [List.nil_append, untilQuote, if_pos hclosing], Nat.le_refl 0⟩
  | cons c text ih =>
    obtain ⟨hc, htext⟩ : '\n' ≠ c ∧ '\n' ∉ text := by simpa using htext
    obtain ⟨first, rest, hfirst, hlength⟩ := ih htext
    rw [List.cons_append, untilQuote]
    by_cases hquote : isQuote c = true
    · exact ⟨[], text ++ closing :: after, by rw [if_pos hquote], Nat.zero_le _⟩
    · refine ⟨c :: first, rest, ?_, by simpa using hlength⟩
      rw [if_neg hquote, if_neg hc.symm, hfirst]
      rfl

/-- The first character of a quoted text may be a quote, the others are not. -/
theorem of_quoted? {source text after : List Char} (h : quoted? source = some (text, after)) :
    ∃ opening closing, isQuote opening = true ∧ isQuote closing = true ∧
      source = opening :: (text ++ closing :: after) ∧
      (text ≠ [] ∧ '\n' ∉ text) ∧ ∀ c ∈ text.tail, isQuote c = false := by
  unfold quoted? at h
  split at h
  case h_2 => cases h
  case h_1 opening first rest =>
    split at h
    case isFalse => cases h
    case isTrue hopening =>
      obtain ⟨⟨tail, rest'⟩, htail, hpair⟩ := Option.map_eq_some_iff.mp h
      obtain ⟨rfl, rfl⟩ : first :: tail = text ∧ rest' = after := by simpa using hpair
      obtain ⟨closing, hclosing, hrest, hplain⟩ := untilQuote_eq_some_iff.mp htail
      refine ⟨opening, closing, hopening.1, hclosing, by rw [hrest]; rfl, ?_, ?_⟩
      · have hline : '\n' ∉ tail := fun hmem => (hplain '\n' hmem).2 rfl
        simp [hopening.2.symm, hline]
      · exact fun c hc => (hplain c hc).1

/-- Where a text stands between quotes, `quoted?` finds one that is no longer. -/
theorem exists_quoted? (after : List Char) {text : List Char} {opening closing : Char}
    (hopening : isQuote opening = true) (hclosing : isQuote closing = true)
    (hne : text ≠ []) (hline : '\n' ∉ text) :
    ∃ first rest, quoted? (opening :: (text ++ closing :: after)) = some (first, rest) ∧
      first.length ≤ text.length := by
  obtain ⟨c, tail, rfl⟩ := List.exists_cons_of_ne_nil hne
  obtain ⟨hc, htail⟩ : '\n' ≠ c ∧ '\n' ∉ tail := by simpa using hline
  obtain ⟨first, rest, hfirst, hlength⟩ := exists_untilQuote after hclosing htail
  refine ⟨c :: first, rest, ?_, by simpa using hlength⟩
  rw [List.cons_append, quoted?, if_pos ⟨hopening, hc.symm⟩, hfirst]
  rfl

/-- The white space of a clause is all of it up to the quote, so `capture?` reads the
quoted text behind it. -/
theorem capture?_append {keyword blank rest : List Char} {opening : Char}
    (hblank : blank ≠ [] ∧ ∀ c ∈ blank, isBlank c = true) (hopening : isBlank opening = false) :
    capture? keyword (keyword ++ (blank ++ opening :: rest)) = quoted? (opening :: rest) := by
  obtain ⟨hne, hblank⟩ := hblank
  obtain ⟨c, tail, rfl⟩ := List.exists_cons_of_ne_nil hne
  obtain ⟨hc, htail⟩ : isBlank c = true ∧ ∀ d ∈ tail, isBlank d = true := by simpa using hblank
  have hdrop : (tail ++ opening :: rest).dropWhile isBlank = opening :: rest := by
    rw [List.dropWhile_append_of_pos htail, List.dropWhile_cons_of_neg (by simp [hopening])]
  rw [capture?, if_pos (List.isPrefixOf_iff_prefix.mpr (List.prefix_append _ _)),
    List.drop_left, List.cons_append]
  simp only [hc, if_true, hdrop]

/-- What is captured stands behind the keyword and white space, between quotes. -/
theorem of_capture? {keyword source text after : List Char}
    (h : capture? keyword source = some (text, after)) :
    ∃ blank rest, source = keyword ++ (blank ++ rest) ∧
      (blank ≠ [] ∧ ∀ c ∈ blank, isBlank c = true) ∧ quoted? rest = some (text, after) := by
  unfold capture? at h
  split at h
  case isFalse => cases h
  case isTrue hprefix =>
    obtain ⟨behind, rfl⟩ := List.isPrefixOf_iff_prefix.mp hprefix
    rw [List.drop_left] at h
    cases behind with
    | nil => cases h
    | cons c rest =>
      split at h
      case h_1 heq => cases heq
      case h_2 heq =>
        obtain ⟨rfl, rfl⟩ := List.cons.inj heq
        split at h
        case isFalse => cases h
        case isTrue hc =>
          -- One blank is asked for, and all that follow it are passed over.
          refine ⟨c :: rest.takeWhile isBlank, rest.dropWhile isBlank, ?_, ⟨by simp, ?_⟩, h⟩
          · rw [List.cons_append, List.takeWhile_append_dropWhile]
          · intro d hd
            rcases List.mem_cons.mp hd with rfl | hd
            · exact hc
            · exact List.all_eq_true.mp List.all_takeWhile d hd

/-- What `capture?` reads is a clause, and a quote can only be the first character of
its text. -/
theorem isClause_of_capture? {keyword source text after : List Char}
    (h : capture? keyword source = some (text, after)) :
    ∃ span, source = span ++ after ∧ IsClause keyword span text ∧
      ∀ c ∈ text.tail, isQuote c = false := by
  obtain ⟨blank, rest, rfl, hblank, hquoted⟩ := of_capture? h
  obtain ⟨opening, closing, hopening, hclosing, rfl, htext, hplain⟩ := of_quoted? hquoted
  refine ⟨_, ?_, ⟨blank, opening, closing, rfl, hblank, isQuote_iff.mp hopening, htext,
    isQuote_iff.mp hclosing⟩, hplain⟩
  simp

/-- Where a clause starts, `capture?` reads a text that is no longer. -/
theorem exists_capture? (after : List Char) {keyword span text : List Char}
    (h : IsClause keyword span text) :
    ∃ first rest, capture? keyword (span ++ after) = some (first, rest) ∧
      first.length ≤ text.length := by
  obtain ⟨blank, opening, closing, rfl, hblank, hopening, htext, hclosing⟩ := h
  obtain ⟨first, rest, hquoted, hlength⟩ := exists_quoted? after
    (isQuote_iff.mpr hopening) (isQuote_iff.mpr hclosing) htext.1 htext.2
  refine ⟨first, rest, ?_, hlength⟩
  have hsource : keyword ++ (blank ++ opening :: (text ++ [closing])) ++ after =
      keyword ++ (blank ++ opening :: (text ++ closing :: after)) := by simp
  rw [hsource, capture?_append hblank (isBlank_eq_false_of_quote hopening), hquoted]

/-- `capture?` reads the clause that a text starts with. -/
theorem capture?_eq_some_iff {keyword source text after : List Char} :
    capture? keyword source = some (text, after) ↔
      ∃ span, source = span ++ after ∧ IsFirstClause keyword source span text := by
  constructor
  · intro h
    obtain ⟨span, hsource, hclause, -⟩ := isClause_of_capture? h
    refine ⟨span, hsource, ⟨hclause, hsource ▸ List.prefix_append _ _⟩, ?_⟩
    rintro span' text' hclause' ⟨after', rfl⟩
    obtain ⟨first, rest, hfirst, hlength⟩ := exists_capture? after' hclause'
    obtain ⟨rfl, -⟩ : text = first ∧ after = rest := by simpa [h] using hfirst
    exact hlength
  · rintro ⟨span, rfl, ⟨hclause, -⟩, hshortest⟩
    obtain ⟨first, rest, hfirst, hlength⟩ := exists_capture? after hclause
    obtain ⟨span', hspan', hclause', -⟩ := isClause_of_capture? hfirst
    have hlength' := hshortest span' first hclause' (hspan' ▸ List.prefix_append _ _)
    -- Both texts stand behind the same quote, so texts of one length are the same text.
    obtain ⟨blank, opening, closing, rfl, hblank, hopening, -, -⟩ := hclause
    have hsource : keyword ++ (blank ++ opening :: (text ++ [closing])) ++ after =
        keyword ++ (blank ++ opening :: (text ++ closing :: after)) := by simp
    rw [hsource] at hfirst ⊢
    rw [capture?_append hblank (isBlank_eq_false_of_quote hopening)] at hfirst ⊢
    obtain ⟨opening', closing', -, -, hbehind, -⟩ := of_quoted? hfirst
    obtain ⟨-, hbehind⟩ := List.cons.inj hbehind
    obtain ⟨rfl, htail⟩ := List.append_inj hbehind (by omega)
    obtain ⟨-, rfl⟩ := List.cons.inj htail
    exact hfirst

/-- Nothing is captured exactly where no clause starts. -/
theorem capture?_eq_none_iff {keyword source : List Char} :
    capture? keyword source = none ↔ ¬StartsClause keyword source := by
  constructor
  · rintro h ⟨span, text, hclause, after, rfl⟩
    obtain ⟨first, rest, hfirst, -⟩ := exists_capture? after hclause
    rw [h] at hfirst
    cases hfirst
  · intro h
    cases hcapture : capture? keyword source with
    | none => rfl
    | some found =>
      obtain ⟨text, after⟩ := found
      obtain ⟨span, rfl, hclause, -⟩ := isClause_of_capture? hcapture
      exact absurd ⟨span, text, hclause, List.prefix_append _ _⟩ h

/-! ### All clauses of a keyword -/

/-- Characters that belong to the clause before are passed over. -/
theorem capturesAfter_eq_drop (keyword : List Char) (skip : Nat) (source : List Char) :
    capturesAfter keyword skip source = captures keyword (source.drop skip) := by
  induction source generalizing skip with
  | nil => simp [captures, capturesAfter]
  | cons c rest ih =>
    cases skip with
    | zero => rfl
    | succ skip => rw [capturesAfter, ih, List.drop_succ_cons]

/-- Where no clause starts, the search goes on with the next character. -/
theorem captures_cons_of_none {keyword rest : List Char} {c : Char}
    (h : capture? keyword (c :: rest) = none) :
    captures keyword (c :: rest) = captures keyword rest := by
  rw [captures, capturesAfter, h]
  rfl

/-- After a clause the search goes on where the clause ends. -/
theorem captures_of_some {keyword source text after : List Char}
    (h : capture? keyword source = some (text, after)) :
    captures keyword source = text :: captures keyword after := by
  obtain ⟨span, rfl, hclause, -⟩ := isClause_of_capture? h
  obtain ⟨blank, opening, closing, hspan, -⟩ := hclause
  cases span with
  | nil => simp at hspan
  | cons c tail =>
    rw [List.cons_append] at h ⊢
    rw [captures, capturesAfter, h]
    -- What has been counted is the rest of the clause, without its first character.
    have hskip : (tail ++ after).length - after.length = tail.length := by simp
    show text :: capturesAfter keyword _ (tail ++ after) = _
    rw [hskip, capturesAfter_eq_drop, List.drop_left]

/-- A character where no clause starts can be put before the search. -/
theorem LeftmostClauses.cons {keyword rest : List Char} {c : Char} {found : List (List Char)}
    (h : LeftmostClauses keyword rest found) (hno : ¬StartsClause keyword (c :: rest)) :
    LeftmostClauses keyword (c :: rest) found := by
  cases h with
  | none hnone =>
    refine .none fun before after hsource => ?_
    cases before with
    | nil =>
      rw [List.nil_append] at hsource
      rwa [← hsource]
    | cons d before => exact hnone before after (List.cons.inj hsource).2
  | @next before span after text found hbefore hfirst hafter =>
    have hstep : LeftmostClauses keyword ((c :: before) ++ (span ++ after)) (text :: found) := by
      refine .next (fun skipped rest hcut hne => ?_) hfirst hafter
      cases skipped with
      | nil =>
        rw [List.nil_append] at hcut
        rwa [← hcut]
      | cons d skipped => exact hbefore skipped rest (List.cons.inj hcut).2 hne
    exact hstep

/-- A search finds the leftmost clauses. -/
theorem leftmostClauses_captures (keyword : List Char) :
    ∀ source, LeftmostClauses keyword source (captures keyword source) := by
  intro source
  -- A clause takes at least its quotes, so what is left after it is shorter.
  induction hlength : source.length using Nat.strongRecOn generalizing source with
  | ind n ih =>
    cases hcapture : capture? keyword source with
    | some found =>
      obtain ⟨text, after⟩ := found
      obtain ⟨span, rfl, hfirst⟩ := capture?_eq_some_iff.mp hcapture
      have hshorter : after.length < n := by
        obtain ⟨blank, opening, closing, rfl, -⟩ := hfirst.1.1
        simp only [List.length_append, List.length_cons] at hlength
        omega
      rw [captures_of_some hcapture]
      have hnext : LeftmostClauses keyword ([] ++ (span ++ after))
          (text :: captures keyword after) :=
        .next (by simp) hfirst (ih after.length hshorter after rfl)
      exact hnext
    | none =>
      -- No clause starts here, and the search goes on at the next character.
      have hno := capture?_eq_none_iff.mp hcapture
      cases source with
      | nil =>
        refine .none fun before after hsource => ?_
        obtain ⟨-, rfl⟩ := List.append_eq_nil_iff.mp hsource.symm
        exact hno
      | cons c rest =>
        rw [captures_cons_of_none hcapture]
        have hshorter : rest.length < n := by
          simp only [List.length_cons] at hlength
          omega
        exact (ih rest.length hshorter rest rfl).cons hno

/-- A search passes over the characters where no clause starts. -/
theorem captures_append_of_none {keyword before after : List Char}
    (h : ∀ skipped rest, before = skipped ++ rest → rest ≠ [] →
      ¬StartsClause keyword (rest ++ after)) :
    captures keyword (before ++ after) = captures keyword after := by
  induction before with
  | nil => rfl
  | cons c before ih =>
    have hc : ¬StartsClause keyword (c :: (before ++ after)) :=
      h [] (c :: before) rfl (by simp)
    rw [List.cons_append, captures_cons_of_none (capture?_eq_none_iff.mpr hc)]
    exact ih fun skipped rest hcut hne => h (c :: skipped) rest (by rw [hcut]; rfl) hne

/-- There is only one list of leftmost clauses. -/
theorem LeftmostClauses.eq_captures {keyword source : List Char} {found : List (List Char)}
    (h : LeftmostClauses keyword source found) : found = captures keyword source := by
  induction h with
  | @none source hnone =>
    -- No clause starts anywhere, not even at the end.
    have hcaptures : captures keyword (source ++ []) = captures keyword [] := by
      refine captures_append_of_none fun skipped rest hcut _ => ?_
      rw [List.append_nil]
      exact hnone skipped rest hcut
    rw [List.append_nil] at hcaptures
    rw [hcaptures]
    rfl
  | @next before span after text found hbefore hfirst hafter ih =>
    rw [captures_append_of_none hbefore,
      captures_of_some (capture?_eq_some_iff.mpr ⟨span, rfl, hfirst⟩), ih]

/-- A clause that a search finds stands in the source. -/
theorem LeftmostClauses.exists_clause {keyword source : List Char} {found : List (List Char)}
    (h : LeftmostClauses keyword source found) :
    ∀ text ∈ found, ∃ before rest span after,
      source = before ++ rest ∧ rest = span ++ after ∧ IsFirstClause keyword rest span text := by
  induction h with
  | none hnone => simp
  | @next before span after text found hbefore hfirst hafter ih =>
    intro text' htext
    rcases List.mem_cons.mp htext with rfl | htext
    · exact ⟨before, span ++ after, span, after, rfl, rfl, hfirst⟩
    · obtain ⟨before', rest, span', after', hsource, hrest, hfirst'⟩ := ih text' htext
      refine ⟨before ++ (span ++ before'), rest, span', after', ?_, hrest, hfirst'⟩
      rw [hsource]
      simp only [List.append_assoc]

/-- The text of the clause that a source starts with has no quote after its first
character: a clause that ends there would be shorter. -/
theorem IsFirstClause.tail_plain {keyword source span text : List Char}
    (h : IsFirstClause keyword source span text) : ∀ c ∈ text.tail, isQuote c = false := by
  obtain ⟨after, rfl⟩ := h.1.2
  have hcapture := capture?_eq_some_iff.mpr ⟨span, rfl, h⟩
  obtain ⟨-, -, -, hplain⟩ := isClause_of_capture? hcapture
  exact hplain

/-! ### The specifiers of a source -/

section Firsts

variable {α : Type} [DecidableEq α]

/-- Keeping the first of equal entries is what the library does, once the ones seen before are
left out. -/
theorem firsts_eq_eraseDups [BEq α] [LawfulBEq α] (seen xs : List α) :
    firsts seen xs = (xs.filter fun x => x ∉ seen).eraseDups := by
  induction xs generalizing seen with
  | nil => rfl
  | cons x xs ih =>
    rw [firsts]
    by_cases hx : x ∈ seen
    · rw [if_pos hx, ih, List.filter_cons_of_neg (by simpa using hx)]
    · rw [if_neg hx, ih, List.filter_cons_of_pos (by simpa using hx), List.eraseDups_cons,
        List.filter_filter]
      congr 2
      -- From here on `x` has been seen too.
      refine List.filter_congr fun y _ => ?_
      by_cases hy : y = x <;> simp [hy]

/-- An entry is kept exactly if it was not seen before. -/
theorem mem_firsts_iff {seen xs : List α} {x : α} :
    x ∈ firsts seen xs ↔ x ∈ xs ∧ x ∉ seen := by
  simp [firsts_eq_eraseDups]

/-- No entry is kept twice. -/
theorem nodup_firsts (seen xs : List α) : (firsts seen xs).Nodup := by
  induction xs generalizing seen with
  | nil => exact List.nodup_nil
  | cons x xs ih =>
    rw [firsts]
    by_cases hx : x ∈ seen
    · rw [if_pos hx]
      exact ih seen
    · rw [if_neg hx, List.nodup_cons]
      refine ⟨fun hmem => ?_, ih (x :: seen)⟩
      exact (mem_firsts_iff.mp hmem).2 (List.mem_cons_self ..)

end Firsts

/-- The relative specifiers among the texts of the clauses, each where it occurs first. -/
def relativeOnce (texts : List (List Char)) : List (List Char) :=
  (texts.filter fun text => text.head? == some '.').eraseDups

/-- The specifiers of a source are its relative captures, those of `from` first, each once. -/
theorem specifiers_eq (source : List Char) :
    specifiers source = relativeOnce
      (captures "from".toList source ++ captures "import".toList source) := by
  rw [specifiers, relativeOnce, firsts_eq_eraseDups, List.filter_eq_self.mpr (by simp)]

/-- What the clause around a relative specifier looks like. -/
theorem specifier_surrounded {keyword source text : List Char}
    (hmem : text ∈ captures keyword source) (hdot : text.head? = some '.') :
    ('\n' ∉ text ∧ ∀ c ∈ text, c ≠ '\'' ∧ c ≠ '"') ∧
      ∃ before blank opening closing after,
        source = before ++ (keyword ++ (blank ++ opening :: (text ++ closing :: after))) ∧
        (blank ≠ [] ∧ ∀ c ∈ blank, isBlank c = true) ∧
        (opening = '\'' ∨ opening = '"') ∧ (closing = '\'' ∨ closing = '"') := by
  obtain ⟨before, rest, span, after, rfl, rfl, hfirst⟩ :=
    (leftmostClauses_captures keyword source).exists_clause text hmem
  have hplain := hfirst.tail_plain
  obtain ⟨⟨⟨blank, opening, closing, rfl, hblank, hopening, htext, hclosing⟩, -⟩, -⟩ := hfirst
  refine ⟨⟨htext.2, fun c hc => ?_⟩, before, blank, opening, closing, after, by simp, hblank,
    hopening, hclosing⟩
  -- The first character is the dot, and no other one is a quote.
  have hc : isQuote c = false := by
    cases text with
    | nil => cases hc
    | cons d tail =>
      rcases List.mem_cons.mp hc with rfl | hc
      · obtain rfl : c = '.' := by simpa using hdot
        rfl
      · exact hplain c hc
  simpa [isQuote] using hc

/-- A specifier starts with a dot. -/
theorem head?_of_mem_specifiers {source text : List Char} (h : text ∈ specifiers source) :
    text.head? = some '.' := by
  rw [specifiers_eq, relativeOnce, List.mem_eraseDups, List.mem_filter] at h
  exact eq_of_beq h.2

/-- The specifiers of a source are those of its grammar: the texts of the leftmost `from`
clauses and then those of the leftmost `import` clauses, as far as they begin with a dot,
each where it occurs first. So a specifier begins with a dot, stands on one line between
two quotes behind its keyword, has no quote itself, and is listed once. -/
theorem specifiers_grammar (source : List Char) :
    (∀ found, specifiers source = found ↔
      ∃ froms imports, LeftmostClauses "from".toList source froms ∧
        LeftmostClauses "import".toList source imports ∧
        found = relativeOnce (froms ++ imports)) ∧
    (∀ text ∈ specifiers source, text.head? = some '.' ∧
      ('\n' ∉ text ∧ ∀ c ∈ text, c ≠ '\'' ∧ c ≠ '"') ∧
      ∃ keyword, (keyword = "from".toList ∨ keyword = "import".toList) ∧
        ∃ before blank opening closing after,
          source = before ++ (keyword ++ (blank ++ opening :: (text ++ closing :: after))) ∧
          (blank ≠ [] ∧ ∀ c ∈ blank, isBlank c = true) ∧
          (opening = '\'' ∨ opening = '"') ∧ (closing = '\'' ∨ closing = '"')) ∧
    (specifiers source).Nodup := by
  refine ⟨fun found => ⟨?_, ?_⟩, fun text hmem => ?_, nodup_firsts _ _⟩
  · rintro rfl
    exact ⟨_, _, leftmostClauses_captures _ source, leftmostClauses_captures _ source,
      specifiers_eq source⟩
  · rintro ⟨froms, imports, hfroms, himports, rfl⟩
    rw [specifiers_eq, hfroms.eq_captures, himports.eq_captures]
  · rw [specifiers_eq, relativeOnce, List.mem_eraseDups, List.mem_filter] at hmem
    obtain ⟨hmem, hdot⟩ := hmem
    have hdot : text.head? = some '.' := eq_of_beq hdot
    refine ⟨hdot, ?_⟩
    rcases List.mem_append.mp hmem with hfrom | himport
    · obtain ⟨hplain, hplace⟩ := specifier_surrounded hfrom hdot
      exact ⟨hplain, _, Or.inl rfl, hplace⟩
    · obtain ⟨hplain, hplace⟩ := specifier_surrounded himport hdot
      exact ⟨hplain, _, Or.inr rfl, hplace⟩

-- Quotes need not match, and what was taken for a package is no relative specifier.
example : specifiers "import './a';\nimport b from \"./b';\nimport 'zone.js';".toList =
    ["./b".toList, "./a".toList] := by
  decide +kernel

end Unimported.Specifier
