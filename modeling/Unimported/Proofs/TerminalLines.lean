import Unimported.Proofs.ShownPaths
import Unimported.Report.Terminal

/-!
# `Unimported.Proofs.TerminalLines`: reading the terminal report back

The report for a reader is made of lines, and the lines can be told apart again: a line break
ends each of them and stands nowhere else, as long as no name has one. No name has to be
looked into for that. A line about an unused file begins with a dash and is never blank, and
what comes after these lines begins with a blank one, so a name that looks like a heading, or
like a line about another file, does no harm. The statements:

* `splitOn_lines`: lines that are written one after the other are what a text is split into.
* `Style.shownIn_paint`: what a text in a style is written as.
* `Style.newLine_notMem_paint`: colour brings no line break in.
* `terminal_lists_json`: the files that the terminal report lists are those of the JSON
  report, and what is shown on request is a section of its own behind it.
-/

set_option autoImplicit false

namespace Unimported

/-! ### Lines -/

/-- A text of lines, each with its line break. -/
def ofLines (lines : List (List Char)) : List Char :=
  lines.flatMap (· ++ ['\n'])

/-- Splitting a text at its line breaks gives the lines that it begins with. -/
theorem splitOn_lines {lines : List (List Char)} (h : ∀ l ∈ lines, '\n' ∉ l)
    (rest : List Char) : (ofLines lines ++ rest).splitOn '\n' = lines ++ rest.splitOn '\n' := by
  induction lines with
  | nil => rfl
  | cons line lines ih =>
    have hline : '\n' ∉ line := h line List.mem_cons_self
    have htext : ofLines (line :: lines) ++ rest = line ++ '\n' :: (ofLines lines ++ rest) := by
      simp [ofLines]
    rw [htext, List.splitOn_append_cons_self, List.splitOn_eq_singleton hline,
      ih fun l hl => h l (List.mem_cons_of_mem line hl)]
    rfl

/-- The lines of a report behind its heading, up to the first blank one. The heading is the
second line. -/
def linesBehindHeading (report : List Char) : List (List Char) :=
  ((report.splitOn '\n').drop 2).takeWhile (· ≠ [])

/-! ### Text in a style -/

/-- The sequence that gives a terminal a code: `0` switches every style off, and other codes
switch one on. -/
def styleSequence (code : String) : List Char :=
  '\x1b' :: '[' :: code.toList ++ ['m']

/-- How a text is shown in the style of a code, with or without colour. -/
inductive ShownIn (code : String) : Bool → List Char → List Char → Prop where
  /-- Without colour it is shown as it is. -/
  | plain (text : List Char) : ShownIn code false text text
  /-- With colour the style is switched on before it and off behind it. Where the text itself
  switches it off, it is switched on again; the pieces are what stands between such places. -/
  | coloured (pieces : List (List Char)) (h : ∀ piece ∈ pieces, ¬styleSequence "0" <:+: piece) :
      ShownIn code true ((styleSequence "0").intercalate pieces)
        (styleSequence code ++ (styleSequence "0" ++ styleSequence code).intercalate pieces ++
          styleSequence "0")

/-- A text that stands before the first of some texts stands before them together. -/
theorem intercalate_append_cons (sep front first : List Char) (more : List (List Char)) :
    sep.intercalate ((front ++ first) :: more) = front ++ sep.intercalate (first :: more) := by
  cases more with
  | nil => simp
  | cons next more => simp [List.intercalate_cons_cons]

namespace Style

/-- The code of a style. -/
def code : Style → String
  | good => "1;32"
  | notice => "1;33"
  | name => "36"
  | aside => "2"

/-- A text is cut where it switches its style off, and its pieces are put together again with
the style switched on between them. -/
theorem exists_pieces (opening text : List Char) : ∃ first more,
    (∀ piece ∈ first :: more, ¬off <:+: piece) ∧ text = off.intercalate (first :: more) ∧
      resume opening text = (off ++ opening).intercalate (first :: more) := by
  fun_induction resume opening text with
  | case1 rest ih =>
    obtain ⟨first, more, hfree, htext, hresume⟩ := ih
    refine ⟨[], first :: more, ?_, ?_, ?_⟩
    · intro piece hpiece
      rcases List.mem_cons.mp hpiece with rfl | hpiece
      · decide
      · exact hfree piece hpiece
    · rw [List.intercalate_cons_cons, ← htext]
      rfl
    · rw [List.intercalate_cons_cons, ← hresume]
      rfl
  | case2 c rest hother ih =>
    obtain ⟨first, more, hfree, htext, hresume⟩ := ih
    refine ⟨[c] ++ first, more, ?_, ?_, ?_⟩
    · intro piece hpiece
      rcases List.mem_cons.mp hpiece with rfl | hpiece
      · intro hinfix
        rcases List.infix_cons_iff.mp hinfix with ⟨tail, htail⟩ | hinfix
        · -- Then the text itself begins with the sequence.
          cases htail
          rw [htext] at hother
          exact hother _ rfl (intercalate_append_cons off ['[', '0', 'm'] tail more)
        · exact hfree first List.mem_cons_self hinfix
      · exact hfree piece (List.mem_cons_of_mem _ hpiece)
    · rw [intercalate_append_cons, ← htext]
      rfl
    · rw [intercalate_append_cons, ← hresume]
      rfl
  | case3 =>
    refine ⟨[], [], ?_, rfl, rfl⟩
    intro piece hpiece
    rw [List.mem_singleton.mp hpiece]
    decide

/-- A text that is painted is shown in its style. -/
theorem shownIn_paint (style : Style) (colour : Bool) (text : List Char) :
    ShownIn style.code colour text (style.paint colour text) := by
  cases colour with
  | false => exact .plain text
  | true =>
    have hon : style.on = styleSequence style.code := by cases style <;> rfl
    obtain ⟨first, more, hfree, htext, hresume⟩ := exists_pieces style.on text
    rw [paint, if_pos rfl, hresume, htext, hon]
    exact .coloured (first :: more) hfree

end Style

/-! ### No line break inside a line -/

namespace Style

/-- No sequence that switches a style on has a line break. -/
theorem newLine_notMem_on (style : Style) : '\n' ∉ style.on := by
  cases style <;> decide

/-- Switching a style on again brings no line break in. -/
theorem newLine_notMem_resume {opening : List Char} (hopening : '\n' ∉ opening)
    {text : List Char} (h : '\n' ∉ text) : '\n' ∉ resume opening text := by
  fun_induction resume opening text with
  | case1 rest ih =>
    have hoff : '\n' ∉ off := by decide
    simp only [List.mem_cons, not_or] at h
    simp [hoff, hopening, ih h.2.2.2.2]
  | case2 c rest _ ih =>
    rw [List.mem_cons, not_or] at h ⊢
    exact ⟨h.1, ih h.2⟩
  | case3 => exact List.not_mem_nil

/-- Colour brings no line break in. -/
theorem newLine_notMem_paint (style : Style) (colour : Bool) {text : List Char}
    (h : '\n' ∉ text) : '\n' ∉ style.paint colour text := by
  unfold paint
  split
  · have hoff : '\n' ∉ off := by decide
    simp [style.newLine_notMem_on, newLine_notMem_resume style.newLine_notMem_on h, hoff]
  · exact h

end Style

/-- The byte of a line break. -/
def lineFeed : UInt8 := 10

/-- A path is shown on one line if there is no line break in it. -/
theorem newLine_notMem_displayPath {p : Path} (h : lineFeed ∉ p.bytes) :
    '\n' ∉ displayPath p := by
  intro hmem
  obtain ⟨c, hc, hshown⟩ := List.mem_map.mp hmem
  split at hshown
  · cases hshown
  · subst hshown
    exact h (Utf8.mem_bytes_of_mem_decodeLossy (by decide) (by decide) hc)

/-- A number has no line break. -/
theorem newLine_notMem_toString (n : Nat) : '\n' ∉ (toString n).toList := by
  intro h
  have hdigits : (toString n).toList = Nat.toDigits 10 n := by
    simp [toString, Nat.repr]
  rw [hdigits] at h
  exact absurd (Nat.isDigit_of_mem_toDigits (by decide) (by decide) h) (by decide)

/-! ### The report -/

namespace TerminalReport

variable {t : TerminalReport} {r : ScanReport}

/-- The text of a report is that of its first part, and of the section behind it. -/
theorem render_eq (t : TerminalReport) (r : ScanReport) :
    t.render r = ofLines ([] :: t.unusedLines r) ++
      ofLines (if t.showUnresolved then t.unresolvedLines r else []) := by
  rw [render, lines]
  exact List.flatMap_append

/-- The lines about the unused files stand behind one line, the heading. -/
theorem exists_heading (t : TerminalReport) (r : ScanReport) :
    ∃ heading, t.unusedLines r
      = heading :: r.unusedFiles.map fun p => '-' :: ' ' :: displayPath p := by
  unfold unusedLines
  split
  · rename_i hnone
    rw [hnone]
    exact ⟨_, rfl⟩
  · exact ⟨_, rfl⟩

/-- No line about an unused file is broken if no name is. -/
theorem newLine_notMem_unusedLines (hkind : '\n' ∉ t.fileKind.toList)
    (hnames : ∀ p ∈ r.unusedFiles, lineFeed ∉ p.bytes) : ∀ l ∈ t.unusedLines r, '\n' ∉ l := by
  have hheading : ∀ (style : Style) (before after : String), '\n' ∉ before.toList →
      '\n' ∉ after.toList →
      '\n' ∉ style.paint t.colour (before ++ t.fileKind ++ after).toList := by
    intro style before after hbefore hafter
    refine style.newLine_notMem_paint t.colour ?_
    simp [hbefore, hkind, hafter]
  intro l hl
  unfold unusedLines at hl
  split at hl
  · rw [List.mem_singleton.mp hl]
    exact hheading _ _ _ (by decide) (by decide)
  · rcases List.mem_cons.mp hl with rfl | hl
    · exact hheading _ _ _ (by decide) (by decide)
    · obtain ⟨p, hp, rfl⟩ := List.mem_map.mp hl
      simp [newLine_notMem_displayPath (hnames p hp)]

/-- The heading of a section about this many references: a dim text with their number. -/
def IsReferenceHeading (colour : Bool) (count : Nat) (line : List Char) : Prop :=
  ShownIn "2" colour ("Unresolved references (" ++ toString count ++ "):").toList line

/-- The line about a reference, which is a file and a specifier: two blanks, the file in cyan, a
dim arrow and the specifier, with a blank on either side of the arrow. -/
def IsReferenceLine (colour : Bool) (reference : String × String) (line : List Char) : Prop :=
  ∃ file arrow, ShownIn "36" colour reference.1.toList file ∧ ShownIn "2" colour ['→'] arrow ∧
    line = [' ', ' '] ++ file ++ [' '] ++ arrow ++ [' '] ++ reference.2.toList

/-- The section, if there is one, has a blank line and a heading with the number of references
before the lines about them. -/
theorem exists_referenceHeading (t : TerminalReport) {r : ScanReport} (h : r.unresolved ≠ []) :
    ∃ heading, IsReferenceHeading t.colour r.unresolved.length heading ∧
      t.unresolvedLines r = [] :: heading :: r.unresolved.map t.unresolvedLine :=
  ⟨_, Style.aside.shownIn_paint t.colour _, if_neg h⟩

/-- The section has a line of this form for every reference. -/
theorem isReferenceLine_unresolvedLine (t : TerminalReport) (u : UnresolvedReference) :
    IsReferenceLine t.colour (String.ofList (displayPath u.file), u.specifier)
      (t.unresolvedLine u) := by
  refine ⟨_, _, Style.name.shownIn_paint t.colour _, Style.aside.shownIn_paint t.colour _, ?_⟩
  rw [unresolvedLine, String.toList_ofList]
  simp

/-- No line about a reference is broken if no file and no specifier is. -/
theorem newLine_notMem_unresolvedLines
    (hnames : ∀ u ∈ r.unresolved, lineFeed ∉ u.file.bytes ∧ '\n' ∉ u.specifier.toList) :
    ∀ l ∈ t.unresolvedLines r, '\n' ∉ l := by
  have harrow : '\n' ∉ Style.aside.paint t.colour ['→'] :=
    Style.newLine_notMem_paint _ _ (by decide)
  intro l hl
  unfold unresolvedLines at hl
  split at hl
  · exact absurd hl List.not_mem_nil
  · rcases List.mem_cons.mp hl with rfl | hl
    · exact List.not_mem_nil
    · rcases List.mem_cons.mp hl with rfl | hl
      · refine Style.newLine_notMem_paint _ _ ?_
        have hcount := newLine_notMem_toString r.unresolved.length
        simp only [String.toList_append, List.mem_append, not_or]
        exact ⟨⟨by decide, hcount⟩, by decide⟩
      · obtain ⟨u, hu, rfl⟩ := List.mem_map.mp hl
        obtain ⟨hfile, hspecifier⟩ := hnames u hu
        have hshown : '\n' ∉ Style.name.paint t.colour (displayPath u.file) :=
          Style.newLine_notMem_paint _ _ (newLine_notMem_displayPath hfile)
        simp [unresolvedLine, hshown, harrow, hspecifier]

/-- The section about references without a target, if it is shown and there is one, begins with
a blank line. -/
theorem takeWhile_section (t : TerminalReport) (r : ScanReport) :
    ((ofLines (if t.showUnresolved then t.unresolvedLines r else [])).splitOn '\n').takeWhile
      (· ≠ []) = [] := by
  have hnone : ((ofLines []).splitOn '\n').takeWhile (· ≠ []) = [] := rfl
  unfold unresolvedLines
  split
  · split
    · exact hnone
    · -- Only the blank line is split off; what follows it may have further line breaks.
      rw [ofLines, List.flatMap_cons]
      exact congrArg _ (List.splitOn_append_cons_self [] _)
  · exact hnone

/-- The terminal report can be read back, with or without colour.

1. The lines behind its heading, up to the first blank one, are the strings that the JSON
   report lists as unused files, each behind a dash, in the same order. This is so whether or
   not references without a target are shown.
2. Showing these adds a section at the end and changes nothing else. There is no section
   exactly if there are no such references. If there are some, and no file and no specifier
   among them has a line break, the lines of the section are a blank one, the heading with the
   number of references, and for each reference that the JSON report lists, in the same order,
   one line with the strings for its file and its specifier. -/
theorem terminal_lists_json (t : TerminalReport) (r : ScanReport)
    (hkind : '\n' ∉ t.fileKind.toList) (hnames : ∀ p ∈ r.unusedFiles, lineFeed ∉ p.bytes) :
    (∃ names, JsonText.unusedFiles? r.renderJson = some names ∧
      linesBehindHeading (t.render r) = names.map fun name => '-' :: ' ' :: name.toList) ∧
    ∃ more,
      { t with showUnresolved := true }.render r
        = { t with showUnresolved := false }.render r ++ more ∧
      (more = [] ↔ r.unresolved = []) ∧
      (r.unresolved ≠ [] →
        (∀ u ∈ r.unresolved, lineFeed ∉ u.file.bytes ∧ '\n' ∉ u.specifier.toList) →
        ∃ references heading lines,
          JsonText.unresolvedReferences? r.renderJson = some references ∧
          IsReferenceHeading t.colour references.length heading ∧
          List.Forall₂ (IsReferenceLine t.colour) references lines ∧
          more.splitOn '\n' = [] :: heading :: lines ++ [[]]) := by
  refine ⟨⟨_, unusedFiles?_renderJson r, ?_⟩, ofLines (t.unresolvedLines r), ?_, ?_, ?_⟩
  · obtain ⟨heading, hheading⟩ := exists_heading t r
    have hlines : ∀ l ∈ [] :: t.unusedLines r, '\n' ∉ l := by
      intro l hl
      rcases List.mem_cons.mp hl with rfl | hl
      · exact List.not_mem_nil
      · exact newLine_notMem_unusedLines hkind hnames l hl
    -- Behind the lines about unused files comes a blank one or the end.
    have hstop := takeWhile_section t r
    rw [linesBehindHeading, render_eq, splitOn_lines hlines, hheading, List.cons_append,
      List.cons_append, List.drop_succ_cons, List.drop_succ_cons, List.drop_zero,
      List.takeWhile_append_of_pos (by simp), hstop, List.append_nil, List.map_map]
    refine List.map_congr_left fun p _ => ?_
    rw [Function.comp_apply, String.toList_ofList]
  · rw [render_eq, render_eq]
    show ofLines ([] :: t.unusedLines r) ++ ofLines (t.unresolvedLines r)
      = ofLines ([] :: t.unusedLines r) ++ [] ++ ofLines (t.unresolvedLines r)
    rw [List.append_nil]
  · unfold unresolvedLines
    split
    · rename_i hnil
      simp [hnil, ofLines]
    · rename_i hne
      simp [hne, ofLines]
  · intro hne hnames
    obtain ⟨heading, hheading, hsection⟩ := exists_referenceHeading t hne
    -- The section is made of lines, so it is split into them.
    have hlines := splitOn_lines (newLine_notMem_unresolvedLines (t := t) hnames) []
    rw [List.append_nil] at hlines
    refine ⟨_, heading, r.unresolved.map t.unresolvedLine, unresolvedReferences?_renderJson r, ?_,
      ?_, ?_⟩
    · rw [List.length_map]
      exact hheading
    · rw [List.forall₂_map_left_iff, List.forall₂_map_right_iff, List.forall₂_same]
      exact fun u _ => isReferenceLine_unresolvedLine t u
    · rw [hlines, hsection]
      rfl

/-- A coloured report in which names look like parts of a report. -/
def colouredReport : TerminalReport :=
  { showUnresolved := true, fileKind := "\x1b[0m source", colour := true }

/-- A report about files with such names. -/
def disguisedReport : ScanReport where
  root := Path.ofString "app"
  scannedFiles := 3
  unusedFiles := ["- a.ts", "Unresolved references (1):", "\x1b[0m\\ .ts"].map Path.ofString
  readErrors := []
  unresolved := [⟨Path.ofString "- b.ts", "./→ c"⟩, ⟨Path.ofString "\x1b[0m.ts", "."⟩]

/-- None of the names is taken for something else, and the references are told from the section
behind the rest. -/
theorem terminal_lists_json_disguisedReport :
    (('\n' ∉ colouredReport.fileKind.toList ∧
      ∀ p ∈ disguisedReport.unusedFiles, lineFeed ∉ p.bytes) ∧
      ∀ u ∈ disguisedReport.unresolved, lineFeed ∉ u.file.bytes ∧ '\n' ∉ u.specifier.toList) ∧
    linesBehindHeading (colouredReport.render disguisedReport)
      = ["- - a.ts", "- Unresolved references (1):", "- \x1b[0m/ .ts"].map String.toList ∧
    ∃ more heading lines,
      colouredReport.render disguisedReport
        = { colouredReport with showUnresolved := false }.render disguisedReport ++ more ∧
      IsReferenceHeading true 2 heading ∧
      List.Forall₂ (IsReferenceLine true) [("- b.ts", "./→ c"), ("\x1b[0m.ts", ".")] lines ∧
      more.splitOn '\n' = [] :: heading :: lines ++ [[]] := by
  have hkind : '\n' ∉ colouredReport.fileKind.toList := by decide +kernel
  have hnames : ∀ p ∈ disguisedReport.unusedFiles, lineFeed ∉ p.bytes := by decide +kernel
  have hreferences : ∀ u ∈ disguisedReport.unresolved,
      lineFeed ∉ u.file.bytes ∧ '\n' ∉ u.specifier.toList := by decide +kernel
  obtain ⟨⟨names, hjson, hlines⟩, more, hmore, -, hsection⟩ :=
    terminal_lists_json colouredReport disguisedReport hkind hnames
  refine ⟨⟨⟨hkind, hnames⟩, hreferences⟩, ?_, more, ?_⟩
  · rw [unusedFiles?_renderJson] at hjson
    rw [hlines, ← Option.some.inj hjson]
    decide +kernel
  · obtain ⟨references, heading, lines, hread, hheading, hall, hsplit⟩ :=
      hsection (by decide) hreferences
    have hshown : (disguisedReport.unresolved.map fun u =>
        (String.ofList (displayPath u.file), u.specifier))
          = [("- b.ts", "./→ c"), ("\x1b[0m.ts", ".")] := by decide +kernel
    rw [unresolvedReferences?_renderJson, hshown] at hread
    obtain rfl := Option.some.inj hread
    exact ⟨heading, lines, hmore, hheading, hall, hsplit⟩

end TerminalReport

end Unimported
