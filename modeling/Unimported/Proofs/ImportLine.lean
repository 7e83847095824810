import Unimported.Proofs.AppendedText

/-!
# `Unimported.Proofs.ImportLine`: an import on its own line

Clauses do not overlap, and their white space may cross lines, so a clause that begins in one
line could take the keyword or the quote of the next one. It takes neither. From its opening
quote on a clause stays on its line, and its white space ends at the first character that is
none, which is no later than the keyword of the next line. The statements:

* `capture?_append_of_line`, `captures_append_of_lines`: the clauses of whole lines do not
  depend on what follows, unless that begins with a quote.
* `eq_of_line`: the first quote of an import is the one behind its keyword, whatever stands in
  front of the keyword.
* `captures_line`: an import that begins a text is the first clause there.
* `mem_specifiers_of_line`: an import on its own line is always seen.
-/

set_option autoImplicit false

namespace Unimported.Specifier

/-- Whether a text begins with a quote, perhaps behind white space. -/
def OpensQuote (source : List Char) : Prop :=
  ∃ blank q rest, source = blank ++ q :: rest ∧ (∀ c ∈ blank, isBlank c = true) ∧
    isQuote q = true

/-- A keyword is a word: it has neither white space nor quotes. -/
def IsWord (keyword : List Char) : Prop :=
  keyword ≠ [] ∧ ∀ c ∈ keyword, isQuote c = false ∧ isBlank c = false

/-- Both keywords are words. -/
theorem isWord_of_keyword {keyword : List Char}
    (h : keyword = "from".toList ∨ keyword = "import".toList) : IsWord keyword := by
  have hall : keyword ≠ [] ∧ (keyword.all fun c => !isQuote c && !isBlank c) = true := by
    rcases h with rfl | rfl <;> decide
  simpa [IsWord] using hall

/-- A quote is no line break. -/
theorem isQuote_ne_newLine {q : Char} (h : isQuote q = true) : q ≠ '\n' := by
  rintro rfl
  cases h

/-- The text in front of the first quote of a text. -/
theorem eq_of_append_quote {front front' rest rest' : List Char} {q q' : Char}
    (hfront : ∀ c ∈ front, isQuote c = false) (hfront' : ∀ c ∈ front', isQuote c = false)
    (hq : isQuote q = true) (hq' : isQuote q' = true)
    (h : front ++ q :: rest = front' ++ q' :: rest') : front = front' := by
  have htake : ∀ (l : List Char) (c : Char) (more : List Char), (∀ d ∈ l, isQuote d = false) →
      isQuote c = true → (l ++ c :: more).takeWhile (fun d => !isQuote d) = l := by
    intro l c more hl hc
    rw [List.takeWhile_append_of_pos (by simpa using hl), List.takeWhile_cons_of_neg (by simp [hc]),
      List.append_nil]
  rw [← htake front q rest hfront hq, h, htake front' q' rest' hfront' hq']

/-! ### Across the end of a line -/

/-- The quoted text of a clause stands on one line. Where the clause goes on behind a line
end, it is still in its white space. -/
theorem IsOpenClause.opensQuote {keyword start text line cut : List Char}
    (h : IsOpenClause keyword start text) (hkeyword : IsWord keyword)
    (hstart : start = line ++ '\n' :: cut) : OpensQuote cut := by
  obtain ⟨blank, opening, first, plain, rfl, -, ⟨-, hblank⟩, hopening, hfirst, hplain⟩ := h
  have hopeningLine : opening ≠ '\n' := isQuote_ne_newLine hopening
  have hquotedLine : '\n' ∉ opening :: first :: plain := by
    simp only [List.mem_cons, not_or]
    exact ⟨hopeningLine.symm, hfirst.symm, fun hmem => (hplain '\n' hmem).2 rfl⟩
  rcases List.append_eq_append_iff.mp hstart with ⟨behind, -, hbehind⟩ | ⟨gap, hgap, hcut⟩
  · -- The line end would be one of the characters from the opening quote on.
    rw [hbehind] at hquotedLine
    simp at hquotedLine
  · cases gap with
    | nil =>
      rw [List.nil_append] at hcut
      exact absurd (List.cons.inj hcut).1.symm hopeningLine
    | cons c gap =>
      obtain ⟨rfl, rfl⟩ := List.cons.inj hcut
      refine ⟨gap, opening, first :: plain, rfl, fun c hc => ?_, hopening⟩
      rcases List.append_eq_append_iff.mp hgap with ⟨shared, -, hshared⟩ | ⟨shared, hshared, htail⟩
      · exact hblank c (by rw [hshared]; simp [hc])
      · cases shared with
        | nil => exact hblank c (by rw [← List.nil_append blank, ← htail]; simp [hc])
        | cons d shared =>
          -- The line end would be a character of the keyword.
          obtain ⟨rfl, -⟩ := List.cons.inj htail
          have hword := (hkeyword.2 '\n' (by simp [hshared])).2
          cases hword

/-- A clause that begins in a line ends in it, unless the text behind the line opens a
quote. -/
theorem capture?_append_of_line {keyword : List Char} (hkeyword : IsWord keyword)
    {after : List Char} (hafter : ¬OpensQuote after) (line : List Char) :
    capture? keyword (line ++ '\n' :: after)
      = (capture? keyword (line ++ ['\n'])).map fun (text, rest) => (text, rest ++ after) := by
  have hsource : line ++ '\n' :: after = (line ++ ['\n']) ++ after := by simp
  cases hwhole : capture? keyword (line ++ '\n' :: after) with
  | none =>
    cases hline : capture? keyword (line ++ ['\n']) with
    | none => rfl
    | some found =>
      rw [hsource, capture?_append_of_some after hline] at hwhole
      cases hwhole
  | some found =>
    obtain ⟨text, rest⟩ := found
    obtain ⟨start, closing, hopen, hclosing, hsplit⟩ := capture?_eq_some_iff_open.mp hwhole
    rw [hsource] at hsplit
    rcases List.append_eq_append_iff.mp hsplit with ⟨cut, hstart, hcut⟩ | ⟨rest', hline, hrest⟩
    · -- The clause goes on behind the line, where it has still to open its quote.
      exfalso
      have hbehind : start = line ++ '\n' :: cut := by
        rw [hstart, List.append_assoc, List.singleton_append]
      obtain ⟨blank, q, more, rfl, hblank, hq⟩ := hopen.opensQuote hkeyword hbehind
      refine hafter ⟨blank, q, more ++ closing :: rest, ?_, hblank, hq⟩
      rw [hcut, List.append_assoc, List.cons_append]
    · cases rest' with
      | nil =>
        exact absurd ⟨[], closing, rest, hrest.symm, by simp, hclosing⟩ hafter
      | cons c rest' =>
        obtain ⟨rfl, rfl⟩ := List.cons.inj hrest
        rw [capture?_eq_some_iff_open.mpr ⟨start, _, hopen, hclosing, hline⟩]
        rfl

/-- A text that is made of whole lines. -/
def IsLines (text : List Char) : Prop :=
  text = [] ∨ text.getLast? = some '\n'

/-- What is left of whole lines ends in a line break as well. -/
theorem IsLines.of_suffix {lines rest : List Char} (h : IsLines lines) (hrest : rest <:+ lines) :
    IsLines rest := by
  obtain ⟨before, rfl⟩ := hrest
  rcases h with hnil | hlast
  · exact Or.inl (List.append_eq_nil_iff.mp hnil).2
  · rcases List.eq_nil_or_concat' rest with rfl | ⟨line, c, rfl⟩
    · exact Or.inl rfl
    · refine Or.inr ?_
      rw [← List.append_assoc, List.getLast?_concat] at hlast
      rwa [List.getLast?_concat]

/-- The clauses of some lines and of what follows them are found one after the other. -/
theorem captures_append_of_lines {keyword : List Char} (hkeyword : IsWord keyword)
    {after : List Char} (hafter : ¬OpensQuote after) {lines : List Char} (hlines : IsLines lines) :
    captures keyword (lines ++ after) = captures keyword lines ++ captures keyword after := by
  -- A clause takes at least its quotes, so what is left after it is shorter.
  induction hlength : lines.length using Nat.strongRecOn generalizing lines with
  | ind n ih =>
    cases lines with
    | nil => rfl
    | cons c rest =>
      obtain ⟨line, hline⟩ := List.getLast?_eq_some_iff.mp (hlines.resolve_left (by simp))
      have hstep := capture?_append_of_line hkeyword hafter line
      rw [← List.singleton_append, ← List.append_assoc, ← hline] at hstep
      cases hcapture : capture? keyword (c :: rest) with
      | some found =>
        obtain ⟨text, behind⟩ := found
        rw [hcapture] at hstep
        obtain ⟨start, closing, -, -, hclause⟩ := capture?_eq_some_iff_open.mp hcapture
        have hbehind : IsLines behind := hlines.of_suffix (by
          rw [hclause, List.append_cons]
          exact List.suffix_append _ _)
        have hshorter : behind.length < n := by
          rw [← hlength, hclause]
          simp only [List.length_append, List.length_cons]
          omega
        rw [captures_of_some hcapture, captures_of_some hstep,
          ih behind.length hshorter hbehind rfl, List.cons_append]
      | none =>
        rw [hcapture] at hstep
        have hrest : IsLines rest := hlines.of_suffix (List.suffix_cons c rest)
        have hshorter : rest.length < n := by
          rw [← hlength]
          exact Nat.lt_succ_self _
        rw [List.cons_append] at hstep ⊢
        rw [captures_cons_of_none hcapture, captures_cons_of_none hstep,
          ih rest.length hshorter hrest rfl]

/-! ### An import on its own line -/

section Line

variable {lead keyword blank : List Char} {opening : Char}

/-- The first quote of an import stands behind its keyword and the white space there. -/
theorem eq_of_line (hlead : ∀ c ∈ lead, isQuote c = false) (hkeyword : IsWord keyword)
    (hblank : ∀ c ∈ blank, isBlank c = true) (hopening : isQuote opening = true)
    {front rest more : List Char} {q : Char} (hfront : ∀ c ∈ front, isQuote c = false)
    (hq : isQuote q = true)
    (h : lead ++ (keyword ++ (blank ++ opening :: more)) = front ++ q :: rest) :
    front = lead ++ (keyword ++ blank) := by
  have hsource : front ++ q :: rest = (lead ++ (keyword ++ blank)) ++ opening :: more := by
    rw [← h]
    simp only [List.append_assoc]
  refine eq_of_append_quote hfront (fun c hc => ?_) hq hopening hsource
  rcases List.mem_append.mp hc with hc | hc
  · exact hlead c hc
  · rcases List.mem_append.mp hc with hc | hc
    · exact (hkeyword.2 c hc).1
    · exact isQuote_eq_false_of_isBlank (hblank c hc)

/-- A keyword is in front of the quote, so no clause before goes on with it. -/
theorem not_opensQuote_of_line (hlead : ∀ c ∈ lead, isQuote c = false) (hkeyword : IsWord keyword)
    (hblank : ∀ c ∈ blank, isBlank c = true) (hopening : isQuote opening = true)
    (more : List Char) : ¬OpensQuote (lead ++ (keyword ++ (blank ++ opening :: more))) := by
  rintro ⟨gap, q, rest, hsource, hgap, hq⟩
  have hfront := eq_of_line hlead hkeyword hblank hopening
    (fun c hc => isQuote_eq_false_of_isBlank (hgap c hc)) hq hsource
  obtain ⟨c, tail, rfl⟩ := List.exists_cons_of_ne_nil hkeyword.1
  have hword := (hkeyword.2 c (by simp)).2
  rw [hgap c (by simp [hfront])] at hword
  cases hword

/-- A clause that begins before the keyword would have more white space than there is. -/
theorem not_startsClause_of_line (hne : lead ≠ []) (hlead : ∀ c ∈ lead, isQuote c = false)
    (hkeyword : IsWord keyword) (hblank : ∀ c ∈ blank, isBlank c = true)
    (hopening : isQuote opening = true) (more : List Char) :
    ¬StartsClause keyword (lead ++ (keyword ++ (blank ++ opening :: more))) := by
  rintro ⟨span, text, ⟨gap, q, q', rfl, ⟨-, hgap⟩, hq, -, -⟩, tail, htail⟩
  have hplain : ∀ c ∈ keyword ++ gap, isQuote c = false := by
    intro c hc
    rcases List.mem_append.mp hc with hc | hc
    · exact (hkeyword.2 c hc).1
    · exact isQuote_eq_false_of_isBlank (hgap c hc)
  have hsource : lead ++ (keyword ++ (blank ++ opening :: more))
      = (keyword ++ gap) ++ q :: (text ++ q' :: tail) := by
    rw [← htail]
    simp
  have hfront : keyword ++ gap = lead ++ (keyword ++ blank) :=
    eq_of_line hlead hkeyword hblank hopening hplain (isQuote_iff.mpr hq) hsource
  -- Both sides have the keyword and otherwise, it turns out, nothing but white space.
  have hword : keyword.filter (fun c => !isBlank c) = keyword :=
    List.filter_eq_self.mpr fun c hc => by simp [(hkeyword.2 c hc).2]
  have hnone : ∀ l : List Char, (∀ c ∈ l, isBlank c = true) → l.filter (fun c => !isBlank c) = [] :=
    fun l hl => List.filter_eq_nil_iff.mpr fun c hc => by simp [hl c hc]
  have hfilter := congrArg (List.filter fun c => !isBlank c) hfront
  rw [List.filter_append, List.filter_append, List.filter_append, hword, hnone gap hgap,
    hnone blank hblank, List.append_nil, List.self_eq_append_left,
    List.filter_eq_nil_iff] at hfilter
  obtain ⟨c, rest, rfl⟩ := List.exists_cons_of_ne_nil hne
  obtain ⟨d, word, rfl⟩ := List.exists_cons_of_ne_nil hkeyword.1
  obtain ⟨rfl, -⟩ := List.cons.inj hfront
  have hd := hfilter d (by simp)
  simp [(hkeyword.2 d (by simp)).2] at hd

/-- The first clause of an import on its own line is the import. -/
theorem captures_line (hlead : ∀ c ∈ lead, isQuote c = false) (hkeyword : IsWord keyword)
    (hblank : blank ≠ [] ∧ ∀ c ∈ blank, isBlank c = true) (hopening : isQuote opening = true)
    {text : List Char} (hne : text ≠ []) (htext : ∀ c ∈ text, isQuote c = false ∧ c ≠ '\n')
    {closing : Char} (hclosing : isQuote closing = true) (after : List Char) :
    captures keyword (lead ++ (keyword ++ (blank ++ opening :: (text ++ closing :: after))))
      = text :: captures keyword after := by
  obtain ⟨first, plain, rfl⟩ := List.exists_cons_of_ne_nil hne
  have hopen : IsOpenClause keyword ((keyword ++ blank) ++ opening :: first :: plain)
      (first :: plain) :=
    ⟨blank, opening, first, plain, rfl, rfl, hblank, hopening, (htext first (by simp)).2,
      fun c hc => htext c (by simp [hc])⟩
  rw [captures_append_of_none fun skipped rest hcut hrest =>
    not_startsClause_of_line hrest (fun c hc => hlead c (by simp [hcut, hc])) hkeyword hblank.2
      hopening _]
  refine captures_of_some (capture?_eq_some_iff_open.mpr ⟨_, closing, hopen, hclosing, ?_⟩)
  simp

end Line

/-- An import on its own line is always seen. Behind whole lines, and behind a start of its
line without quotes, a keyword with white space and a quoted specifier behind it is a clause:
the clauses of the lines before it and of the text after it are found as if each of the three
stood alone. So neither a string without an end, nor a comment, nor another import, nor a
keyword at the end of the line before can hide it. -/
theorem mem_specifiers_of_line {before lead keyword blank text : List Char}
    {opening closing : Char} (hbefore : before = [] ∨ before.getLast? = some '\n')
    (hlead : ∀ c ∈ lead, c ≠ '\'' ∧ c ≠ '"')
    (hkeyword : keyword = "from".toList ∨ keyword = "import".toList)
    (hblank : blank ≠ [] ∧ ∀ c ∈ blank, isBlank c = true)
    (hopening : opening = '\'' ∨ opening = '"')
    (htext : text.head? = some '.' ∧ '\n' ∉ text ∧ ∀ c ∈ text, c ≠ '\'' ∧ c ≠ '"')
    (hclosing : closing = '\'' ∨ closing = '"') (after : List Char) :
    let source := before ++ (lead ++ (keyword ++ (blank ++ opening :: (text ++ closing :: after))))
    captures keyword source = captures keyword before ++ text :: captures keyword after ∧
      text ∈ specifiers source := by
  intro source
  have hword := isWord_of_keyword hkeyword
  have hplain : ∀ {l : List Char}, (∀ c ∈ l, c ≠ '\'' ∧ c ≠ '"') → ∀ c ∈ l, isQuote c = false :=
    fun hl c hc => by simpa [isQuote] using hl c hc
  have hopening := isQuote_iff.mpr hopening
  obtain ⟨hdot, hline, hquotes⟩ := htext
  have hne : text ≠ [] := by
    rintro rfl
    cases hdot
  -- The lines before hide nothing, and the first clause behind them is the import.
  have hcaptures : captures keyword source
      = captures keyword before ++ text :: captures keyword after := by
    rw [captures_append_of_lines hword
      (not_opensQuote_of_line (hplain hlead) hword hblank.2 hopening _) hbefore,
      captures_line (hplain hlead) hword hblank hopening hne ?_ (isQuote_iff.mpr hclosing)]
    intro c hc
    refine ⟨hplain hquotes c hc, ?_⟩
    rintro rfl
    exact hline hc
  refine ⟨hcaptures, ?_⟩
  have hmem : text ∈ captures keyword source := by simp [hcaptures]
  rw [specifiers_eq, relativeOnce, List.mem_eraseDups, List.mem_filter, List.mem_append]
  refine ⟨?_, by simp [hdot]⟩
  rcases hkeyword with rfl | rfl
  · exact Or.inl hmem
  · exact Or.inr hmem

/-- Lines with a string that does not end, an import in a comment, and a keyword that has its
line for itself. -/
def messyLines : List Char :=
  "let s = 'no end\n// import \"./old'; from './older\nfrom\n".toList

/-- Behind such lines an import is seen, although its white space crosses lines too, its quotes
differ, and the text goes on with another keyword. -/
theorem mem_specifiers_of_line_messyLines :
    (messyLines.getLast? = some '\n' ∧ (∀ c ∈ "export * ".toList, c ≠ '\'' ∧ c ≠ '"') ∧
      (∀ c ∈ "\n\t".toList, isBlank c = true) ∧
      '\n' ∉ "./letters".toList ∧ ∀ c ∈ "./letters".toList, c ≠ '\'' ∧ c ≠ '"') ∧
    let source := messyLines ++ "export * from\n\t'./letters\" from './more".toList
    captures "from".toList source = "./letters".toList :: [] ∧
      "./letters".toList ∈ specifiers source := by
  have hlines : messyLines.getLast? = some '\n' := by decide +kernel
  have hlead : ∀ c ∈ "export * ".toList, c ≠ '\'' ∧ c ≠ '"' := by simp
  have hblank : ∀ c ∈ "\n\t".toList, isBlank c = true := List.all_eq_true.mp (by decide)
  have htext : '\n' ∉ "./letters".toList ∧ ∀ c ∈ "./letters".toList, c ≠ '\'' ∧ c ≠ '"' := by
    simp
  obtain ⟨hcaptures, hmem⟩ := mem_specifiers_of_line (Or.inr hlines) hlead (Or.inl rfl)
    ⟨by decide, hblank⟩ (Or.inl rfl) ⟨rfl, htext⟩ (Or.inr rfl) " from './more".toList
  have hbefore : captures "from".toList messyLines = [] := by decide +kernel
  have hafter : captures "from".toList " from './more".toList = [] := by decide +kernel
  rw [hbefore, hafter] at hcaptures
  exact ⟨⟨hlines, hlead, hblank, htext⟩, hcaptures, hmem⟩

end Unimported.Specifier
