import Unimported.Proofs.FileContents

/-!
# `Unimported.Proofs.AppendedText`: a source text that goes on

Appending to a text can complete a clause that its end has cut off. Such a clause begins
where no other one can begin before it ends: up to the cut it has its opening quote and at
most one quote directly behind it, and a whole clause needs two quotes that stand further
apart. So everything that was found in the text is still found, and in the same order. The
statements:

* `capture?_eq_some_iff_open`: a clause is an open clause and the quote that closes it.
* `IsOpenClause.captures_eq_nil`: there is no clause in a text that is cut off before its
  first clause is closed.
* `capture?_append_cases`: what becomes of the first clause of a text that goes on.
* `captures_prefix`: the clauses of a text are the first ones of the longer text, and
  `mem_specifiers_append`: no specifier is lost.
* `scan_appendText`: a file that goes on makes no file unused.
-/

set_option autoImplicit false

namespace Unimported

namespace Specifier

/-! ### The first clause -/

/-- A clause up to the quote that closes it. -/
def IsOpenClause (keyword start text : List Char) : Prop :=
  ∃ blank opening first plain,
    start = (keyword ++ blank) ++ opening :: first :: plain ∧ text = first :: plain ∧
    (blank ≠ [] ∧ ∀ c ∈ blank, isBlank c = true) ∧ isQuote opening = true ∧ first ≠ '\n' ∧
    ∀ c ∈ plain, isQuote c = false ∧ c ≠ '\n'

/-- A clause is an open clause and the next quote. -/
theorem capture?_eq_some_iff_open {keyword source text after : List Char} :
    capture? keyword source = some (text, after) ↔
      ∃ start closing, IsOpenClause keyword start text ∧ isQuote closing = true ∧
        source = start ++ closing :: after := by
  constructor
  · intro h
    obtain ⟨blank, rest, rfl, hblank, hquoted⟩ := of_capture? h
    obtain ⟨opening, closing, hopening, hclosing, rfl, ⟨hne, hline⟩, hplain⟩ := of_quoted? hquoted
    obtain ⟨first, plain, rfl⟩ := List.exists_cons_of_ne_nil hne
    obtain ⟨hfirst, hplainLine⟩ : '\n' ≠ first ∧ '\n' ∉ plain := by simpa using hline
    refine ⟨_, closing, ⟨blank, opening, first, plain, rfl, rfl, hblank, hopening, hfirst.symm,
      fun c hc => ⟨hplain c hc, ?_⟩⟩, hclosing, by simp⟩
    rintro rfl
    exact hplainLine hc
  · rintro ⟨start, closing, ⟨blank, opening, first, plain, rfl, rfl, hblank, hopening, hfirst,
      hplain⟩, hclosing, rfl⟩
    have hsource : ((keyword ++ blank) ++ opening :: first :: plain) ++ closing :: after
        = keyword ++ (blank ++ opening :: first :: (plain ++ closing :: after)) := by simp
    rw [hsource, capture?_append hblank (isBlank_eq_false_of_quote (isQuote_iff.mp hopening)),
      quoted?, if_pos ⟨hopening, hfirst⟩,
      untilQuote_eq_some_iff.mpr ⟨closing, hclosing, rfl, hplain⟩]
    rfl

/-- A clause at the start of a text is still there if the text goes on. -/
theorem capture?_append_of_some {keyword source text after : List Char} (more : List Char)
    (h : capture? keyword source = some (text, after)) :
    capture? keyword (source ++ more) = some (text, after ++ more) := by
  obtain ⟨start, closing, hopen, hclosing, rfl⟩ := capture?_eq_some_iff_open.mp h
  refine capture?_eq_some_iff_open.mpr ⟨start, closing, hopen, hclosing, ?_⟩
  rw [List.append_assoc, List.cons_append]

/-- Where a quote can be if all quotes stand in two places next to each other. -/
theorem length_of_quote {front plain before behind : List Char} {opening first q : Char}
    (hfront : ∀ c ∈ front, isQuote c = false) (hplain : ∀ c ∈ plain, isQuote c = false)
    (hq : isQuote q = true) (h : front ++ opening :: first :: plain = before ++ q :: behind) :
    before.length = front.length ∨ before.length = front.length + 1 := by
  have hnot : ∀ l : List Char, (∀ c ∈ l, isQuote c = false) → ∀ j : Nat, l[j]? ≠ some q := by
    intro l hl j hj
    rw [hl q (List.mem_of_getElem? hj)] at hq
    cases hq
  have hplace : (front ++ opening :: first :: plain)[before.length]? = some q := by
    rw [h, List.getElem?_append_right (Nat.le_refl _), Nat.sub_self]
    rfl
  by_cases hbefore : before.length < front.length
  · rw [List.getElem?_append_left hbefore] at hplace
    exact absurd hplace (hnot front hfront _)
  · by_cases hbehind : before.length ≤ front.length + 1
    · omega
    · obtain ⟨j, hj⟩ : ∃ j, before.length - front.length = j + 2 :=
        ⟨before.length - front.length - 2, by omega⟩
      rw [List.getElem?_append_right (by omega), hj, List.getElem?_cons_succ,
        List.getElem?_cons_succ] at hplace
      exact absurd hplace (hnot plain hplain j)

/-- There is no clause in a text that is cut off before its first clause is closed. -/
theorem IsOpenClause.captures_eq_nil {keyword start text source : List Char}
    (h : IsOpenClause keyword start text) (hkeyword : ∀ c ∈ keyword, isQuote c = false)
    (hcut : source <+: start) : captures keyword source = [] := by
  obtain ⟨blank, opening, first, plain, rfl, rfl, ⟨-, hblank⟩, -, -, hplain⟩ := h
  have hfront : ∀ c ∈ keyword ++ blank, isQuote c = false := by
    intro c hc
    rcases List.mem_append.mp hc with hc | hc
    · exact hkeyword c hc
    · exact isQuote_eq_false_of_isBlank (hblank c hc)
  rw [List.eq_nil_iff_forall_not_mem]
  intro text htext
  obtain ⟨before, rest, span, after, rfl, rfl, ⟨hclause, -⟩, -⟩ :=
    (leftmostClauses_captures keyword source).exists_clause text htext
  obtain ⟨blank', q, q', rfl, -, hq, ⟨hne, -⟩, hq'⟩ := hclause
  obtain ⟨tail, htail⟩ := hcut
  have hplain' : ∀ c ∈ plain, isQuote c = false := fun c hc => (hplain c hc).1
  have hopens : (keyword ++ blank) ++ opening :: first :: plain
      = (before ++ (keyword ++ blank')) ++ q :: (text ++ q' :: (after ++ tail)) := by
    rw [← htail]
    simp
  have hcloses : (keyword ++ blank) ++ opening :: first :: plain
      = (before ++ (keyword ++ blank') ++ q :: text) ++ q' :: (after ++ tail) := by
    rw [← htail]
    simp
  -- Both quotes would have to be in the two places next to each other.
  have hfirst := length_of_quote hfront hplain' (isQuote_iff.mpr hq) hopens
  have hlast := length_of_quote hfront hplain' (isQuote_iff.mpr hq') hcloses
  have htextLength := List.length_pos_iff.mpr hne
  simp only [List.length_append, List.length_cons] at hfirst hlast
  omega

/-- What becomes of the first clause of a text that goes on. It stays as it was, or there
was none and there is none, or it was cut off and the text has no clause at all. -/
theorem capture?_append_cases {keyword : List Char} (hkeyword : ∀ c ∈ keyword, isQuote c = false)
    (source more : List Char) :
    (∃ text after, capture? keyword source = some (text, after) ∧
      capture? keyword (source ++ more) = some (text, after ++ more)) ∨
    (capture? keyword source = none ∧ capture? keyword (source ++ more) = none) ∨
    captures keyword source = [] := by
  cases hsource : capture? keyword source with
  | some found => exact Or.inl ⟨found.1, found.2, rfl, capture?_append_of_some more hsource⟩
  | none =>
    cases hmore : capture? keyword (source ++ more) with
    | none => exact Or.inr (Or.inl ⟨rfl, rfl⟩)
    | some found =>
      obtain ⟨start, closing, hopen, hclosing, hsplit⟩ := capture?_eq_some_iff_open.mp hmore
      refine Or.inr (Or.inr ?_)
      rcases List.append_eq_append_iff.mp hsplit with ⟨cut, rfl, -⟩ | ⟨cut, rfl, hcut⟩
      · exact hopen.captures_eq_nil hkeyword (List.prefix_append _ _)
      · cases cut with
        | nil =>
          rw [List.append_nil]
          exact hopen.captures_eq_nil hkeyword (List.prefix_refl _)
        | cons c after =>
          -- With its closing quote the clause would have been found before.
          obtain ⟨rfl, -⟩ := List.cons.inj hcut
          rw [capture?_eq_some_iff_open.mpr ⟨start, closing, hopen, hclosing, rfl⟩] at hsource
          cases hsource

/-! ### All clauses and specifiers -/

/-- The clauses of a text are the first ones of any text that begins with it. -/
theorem captures_prefix {keyword : List Char} (hkeyword : ∀ c ∈ keyword, isQuote c = false)
    (source more : List Char) : captures keyword source <+: captures keyword (source ++ more) := by
  -- A clause takes at least its quotes, so what is left after it is shorter.
  induction hlength : source.length using Nat.strongRecOn generalizing source with
  | ind n ih =>
    rcases capture?_append_cases hkeyword source more with
      ⟨text, after, hsource, hmore⟩ | ⟨hsource, hmore⟩ | hnil
    · have hshorter : after.length < n := by
        obtain ⟨start, closing, -, -, rfl⟩ := capture?_eq_some_iff_open.mp hsource
        simp only [List.length_append, List.length_cons] at hlength
        omega
      rw [captures_of_some hsource, captures_of_some hmore, List.prefix_cons_inj]
      exact ih after.length hshorter after rfl
    · cases source with
      | nil => exact List.nil_prefix
      | cons c rest =>
        have hshorter : rest.length < n := by
          simp only [List.length_cons] at hlength
          omega
        rw [List.cons_append] at hmore ⊢
        rw [captures_cons_of_none hsource, captures_cons_of_none hmore]
        exact ih rest.length hshorter rest rfl
    · rw [hnil]
      exact List.nil_prefix

/-- Text behind a source takes no import from it, whichever of the two keywords it is found by. -/
theorem captures_append_of_keyword {keyword : List Char}
    (h : keyword = "from".toList ∨ keyword = "import".toList) (source more : List Char) :
    captures keyword source <+: captures keyword (source ++ more) := by
  have hplain : (keyword.all fun c => !isQuote c) = true := by
    rcases h with rfl | rfl <;> decide
  exact captures_prefix (by simpa using hplain) source more

/-- No specifier is lost if a text goes on. -/
theorem mem_specifiers_append {source text : List Char} (more : List Char)
    (h : text ∈ specifiers source) : text ∈ specifiers (source ++ more) := by
  rw [specifiers_eq, relativeOnce, List.mem_eraseDups, List.mem_filter, List.mem_append] at h ⊢
  refine ⟨h.1.imp (fun hfrom => ?_) fun himport => ?_, h.2⟩
  · exact (captures_append_of_keyword (Or.inl rfl) source more).subset hfrom
  · exact (captures_append_of_keyword (Or.inr rfl) source more).subset himport

end Specifier

/-! ### A file that goes on -/

/-- What is seen in any file is still seen after one file has been appended to. -/
theorem mem_seenSpecifiers_append {w : Workspace} {loc : Location} {bytes longer : List UInt8}
    {s t : List Char} (hfile : w.tree.entryAt loc = some (.file bytes))
    (htext : Utf8.decode bytes = some s) (hlonger : Utf8.decode longer = some (s ++ t))
    {f : SourceFile} {text : List Char} (h : text ∈ seenSpecifiers w f) :
    text ∈ seenSpecifiers (w.place loc (.file longer)) f := by
  rcases seenSpecifiers_place_cases hfile longer f with hsame | ⟨hbefore, hafter⟩
  · rwa [hsame]
  · rw [hbefore, specifiersIn, htext] at h
    rw [hafter, specifiersIn, hlonger]
    exact Specifier.mem_specifiers_append t h

/-- Appending text never adds a reported file.

1. The clauses that a text has are the first ones of any text that begins with it.
2. Every specifier of a text is one of any text that begins with it.
3. If a file with the text `s` gets the text `s ++ t`, a scan of any root finds the same
   files and reports no file that it has not reported before. -/
theorem scan_appendText (s t : List Char) :
    (∀ keyword, keyword = "from".toList ∨ keyword = "import".toList →
      Specifier.captures keyword s <+: Specifier.captures keyword (s ++ t)) ∧
    (∀ text ∈ Specifier.specifiers s, text ∈ Specifier.specifiers (s ++ t)) ∧
    ∀ (w : Workspace) (c : Config) (root : Path) (loc : Location) (bytes longer : List UInt8),
      w.tree.entryAt loc = some (.file bytes) → Utf8.decode bytes = some s →
      Utf8.decode longer = some (s ++ t) →
      (survey (w.place loc (.file longer)) c root).candidates = (survey w c root).candidates ∧
      (scan (w.place loc (.file longer)) c root).unusedFiles ⊆ (scan w c root).unusedFiles := by
  refine ⟨fun keyword h => Specifier.captures_append_of_keyword h s t,
    fun text h => Specifier.mem_specifiers_append t h, ?_⟩
  intro w c root loc bytes longer hfile htext hlonger
  have houtline := Workspace.sameOutline_place hfile longer
  constructor
  · rw [candidates_survey, candidates_survey, found_of_sameOutline houtline]
  · exact unusedFiles_subset_of_seenSpecifiers houtline fun f _ text h =>
      mem_seenSpecifiers_append hfile htext hlonger h

/-- A page with an import that the end of the file has cut off. -/
def cutPage : Workspace :=
  Workspace.ofFiles [("app/index.ts", "import './used'\nimport './part"), ("app/used.ts", ""),
    ("app/part.ts", "")]

/-- The location of the page. -/
def cutPageLocation : Location := Location.ofString "app/index.ts"

/-- Once the cut import is complete, its part is no longer reported, and the other import
still counts. -/
theorem scan_appendText_cutPage :
    Utf8.decode (Utf8.encode "import './used'\nimport './part';".toList)
      = some ("import './used'\nimport './part".toList ++ "';".toList) ∧
    (scan cutPage {} (Path.ofString "app")).unusedFiles = [Path.ofString "part.ts"] ∧
    (scan (cutPage.place cutPageLocation
        (.file (Utf8.encode "import './used'\nimport './part';".toList))) {}
      (Path.ofString "app")).unusedFiles ⊆ [Path.ofString "part.ts"] := by
  have hfile : cutPage.tree.entryAt cutPageLocation
      = some (.file (Utf8.encode "import './used'\nimport './part".toList)) := by decide +kernel
  have htext : Utf8.decode (Utf8.encode "import './used'\nimport './part".toList)
      = some "import './used'\nimport './part".toList := by decide +kernel
  have hlonger : Utf8.decode (Utf8.encode "import './used'\nimport './part';".toList)
      = some ("import './used'\nimport './part".toList ++ "';".toList) := by decide +kernel
  have hbefore : (scan cutPage {} (Path.ofString "app")).unusedFiles
      = [Path.ofString "part.ts"] := by decide +kernel
  have hsubset := ((scan_appendText "import './used'\nimport './part".toList "';".toList).2.2
    cutPage {} (Path.ofString "app") cutPageLocation _ _ hfile htext hlonger).2
  rw [hbefore] at hsubset
  exact ⟨hlonger, hbefore, hsubset⟩

end Unimported
