import Unimported.Proofs.Json.Reader
import Unimported.Report.Json

/-!
# `Unimported.Proofs.Json.Report`: the JSON report says what the scan says

A report is JSON, and what it spells is the report. The writer is followed along its own
recursion: each character between quotes is spelled as the grammar allows, each count is a
number without a leading zero, and each line break with its indentation is white space
around a value. Since no text spells two values, nothing else can be read out of it. The
statements:

* `spellsText_escape`: a text that is escaped spells that text.
* `spells_toDigits`: a count that is written in decimal spells that count.
* `spells_renderAt`: a value that is written at some level of nesting spells that value.
* `renderJson_faithful`: the report is JSON for the seven fields, and for nothing else.
-/

set_option autoImplicit false

namespace Unimported

open Unimported.JsonText

namespace Json

/-! ### Texts -/

/-- The number of a control character is spelled by the digits that are written for it. -/
theorem spellsUnit_of_lt {n : Nat} (h : n < 32) :
    SpellsUnit ['0', '0', hexDigit (n / 16), hexDigit (n % 16)] n := by
  have hzero : hexValue '0' = some 0 := by decide
  have hdigit : ∀ d < 16, hexValue (hexDigit d) = some d := by decide
  have hvalue : ((0 * 16 + 0) * 16 + n / 16) * 16 + n % 16 = n := by omega
  have hunit := SpellsUnit.four hzero hzero (hdigit (n / 16) (by omega))
    (hdigit (n % 16) (by omega))
  rwa [hvalue] at hunit

/-- A character that is escaped spells that character. -/
theorem spellsChar_escapeChar (c : Char) : SpellsChar (escapeChar c) c := by
  have hcode : ∀ n : Nat, c.toNat = n → c = Char.ofNat n := by
    intro n hn
    rw [← hn, Char.ofNat_toNat]
  unfold escapeChar
  split
  · rename_i hc
    rw [hc]
    exact .short (by decide)
  · rename_i hquote
    split
    · rename_i hc
      rw [hc]
      exact .short (by decide)
    · rename_i hbackslash
      split
      · rename_i hc
        rw [hc]
        exact .short (by decide)
      · split
        · rename_i hc
          rw [hc]
          exact .short (by decide)
        · split
          · rename_i hc
            rw [hc]
            exact .short (by decide)
          · split
            · rename_i hc
              rw [hcode 8 hc]
              exact .short (by decide)
            · split
              · rename_i hc
                rw [hcode 12 hc]
                exact .short (by decide)
              · split
                · -- The other control characters are written by their number.
                  rename_i hcontrol
                  have hunit := SpellsChar.unit (spellsUnit_of_lt hcontrol)
                    (fun h => by have := h.1; omega) (fun h => by have := h.1; omega)
                  rwa [Char.ofNat_toNat] at hunit
                · rename_i hcontrol
                  exact .plain (Nat.not_lt.mp hcontrol) hquote hbackslash

/-- A text that is escaped spells that text. -/
theorem spellsText_escape (text : List Char) : SpellsText (escape text) text := by
  induction text with
  | nil => exact .nil
  | cons c text ih => exact .cons (spellsChar_escapeChar c) ih

/-- A text between quotes spells that text. -/
theorem spells_quote (text : List Char) :
    Spells (quote text) (.value (.text (String.ofList text))) :=
  .text (spellsText_escape text)

/-! ### Counts -/

/-- A count other than zero is written without a leading zero. -/
theorem head?_toDigits {n : Nat} (h : 0 < n) : (Nat.toDigits 10 n).head? ≠ some '0' := by
  induction n using Nat.strongRecOn with
  | ind n ih =>
    rw [Nat.toDigits_eq_if (by decide)]
    split
    · rename_i hlt
      have hdigit : ∀ d < 10, 0 < d → [Nat.digitChar d].head? ≠ some '0' := by decide
      exact hdigit n hlt h
    · -- The first digit is that of the tenth part.
      rename_i hge
      have hrest := ih (n / 10) (Nat.div_lt_self h (by decide)) (by omega)
      have hne : Nat.toDigits 10 (n / 10) ≠ [] := Nat.toDigits_ne_nil
      rwa [List.head?_append_of_ne_nil _ hne]

/-- A count is written as JSON allows for the part in front of the point. -/
theorem isWhole_toDigits (n : Nat) : IsWhole (Nat.toDigits 10 n) := by
  refine ⟨⟨Nat.toDigits_ne_nil, ?_⟩, ?_⟩
  · intro c hc
    exact Nat.isDigit_of_mem_toDigits (by decide) (by decide) hc
  · intro hhead
    rcases Nat.eq_zero_or_pos n with rfl | hpos
    · decide
    · exact absurd hhead (head?_toDigits hpos)

/-- A count that is written in decimal spells that count. -/
theorem spells_toDigits (n : Nat) : Spells (Nat.toDigits 10 n) (.value (.number ⟨n, 0⟩)) := by
  have hvalue : valueOf (Nat.toDigits 10 n ++ []) = n := by
    rw [List.append_nil]
    exact Nat.ofDigitChars_toDigits (by decide) (by decide)
  have hparts := SpellsUnsigned.parts (isWhole_toDigits n) .none .none
  rw [hvalue, List.append_nil, List.append_nil] at hparts
  exact .number (.positive hparts)

/-! ### Values -/

/-- Nothing is white space. -/
theorem isBlankText_nil : IsBlankText [] := by
  intro c hc
  cases hc

/-- A blank is white space. -/
theorem isBlankText_space : IsBlankText [' '] := by
  intro c hc
  rw [List.mem_singleton.mp hc]
  rfl

/-- A line break with its indentation is white space. -/
theorem isBlankText_newLine (level : Nat) : IsBlankText (newLine level) := by
  intro c hc
  rcases List.mem_cons.mp hc with rfl | hc
  · rfl
  · rw [List.eq_of_mem_replicate hc]
    rfl

mutual

/-- The value that a report value stands for. -/
def meaning : Json → JsonValue
  | text value => .text value
  | count value => .number ⟨value, 0⟩
  | list items => .list (meanings items)
  | object fields => .object (fieldMeanings fields)

/-- The values that the items of a list stand for. -/
def meanings : List Json → List JsonValue
  | [] => []
  | item :: items => item.meaning :: meanings items

/-- The fields of an object with the values that they stand for. -/
def fieldMeanings : List (String × Json) → List (String × JsonValue)
  | [] => []
  | (name, value) :: fields => (name, value.meaning) :: fieldMeanings fields

end

/-- The values of a list stand for what each of them stands for. -/
theorem meanings_map {α : Type} (f : α → Json) (xs : List α) :
    meanings (xs.map f) = xs.map fun x => (f x).meaning := by
  induction xs with
  | nil => rfl
  | cons x xs ih => rw [List.map_cons, meanings, ih, List.map_cons]

mutual

/-- A value that is written at some level of nesting spells what it stands for. -/
theorem spells_renderAt (level : Nat) : ∀ value : Json,
    Spells (renderAt level value) (.value value.meaning)
  | text value => by
    have hquote := spells_quote value.toList
    rwa [String.ofList_toList] at hquote
  | count value => spells_toDigits value
  | list [] => .emptyList isBlankText_nil
  | list (item :: items) => by
    have hitems := spells_renderItems level items item (spells_renderAt (level + 1) item)
    have htext : renderAt level (list (item :: items)) = '[' :: (newLine (level + 1) ++
        (renderAt (level + 1) item ++ (renderItems (level + 1) items ++ newLine level)) ++
          [']']) := by
      simp [renderAt]
    rw [htext, meaning]
    exact .list hitems
  | object [] => .emptyObject isBlankText_nil
  | object ((name, value) :: fields) => by
    have hfields := spells_renderFields level fields name value (spells_renderAt (level + 1) value)
    have htext : renderAt level (object ((name, value) :: fields)) = '{' :: (newLine (level + 1) ++
        '"' :: (escape name.toList ++ '"' :: ([] ++ ':' :: ([' '] ++ (renderAt (level + 1) value ++
          (renderFields (level + 1) fields ++ newLine level))))) ++ ['}']) := by
      simp [renderAt, quote]
    rw [htext, meaning]
    exact .object hfields

/-- The items of a list spell what they stand for, once the first one does. -/
theorem spells_renderItems (level : Nat) : ∀ (items : List Json) (item : Json),
    Spells (renderAt (level + 1) item) (.value item.meaning) →
    Spells (newLine (level + 1) ++ (renderAt (level + 1) item ++
      (renderItems (level + 1) items ++ newLine level))) (.items (meanings (item :: items)))
  | [], item, hitem => .lastItem (isBlankText_newLine _) hitem (isBlankText_newLine _)
  | next :: more, item, hitem => by
    have hmore := spells_renderItems level more next (spells_renderAt (level + 1) next)
    have htext : renderItems (level + 1) (next :: more) ++ newLine level
        = [] ++ ',' :: (newLine (level + 1) ++ (renderAt (level + 1) next ++
          (renderItems (level + 1) more ++ newLine level))) := by
      simp [renderItems]
    rw [htext, meanings]
    exact .item (isBlankText_newLine _) hitem isBlankText_nil hmore

/-- The fields of an object spell what they stand for, once the first value does. -/
theorem spells_renderFields (level : Nat) : ∀ (fields : List (String × Json)) (name : String)
    (value : Json), Spells (renderAt (level + 1) value) (.value value.meaning) →
    Spells (newLine (level + 1) ++ '"' :: (escape name.toList ++ '"' :: ([] ++ ':' :: ([' '] ++
      (renderAt (level + 1) value ++ (renderFields (level + 1) fields ++ newLine level))))))
        (.fields (fieldMeanings ((name, value) :: fields)))
  | [], name, value, hvalue => by
    have hname := spellsText_escape name.toList
    have hfield := Spells.lastField (isBlankText_newLine (level + 1)) hname isBlankText_nil
      isBlankText_space hvalue (isBlankText_newLine level)
    rwa [String.ofList_toList] at hfield
  | (next, nextValue) :: more, name, value, hvalue => by
    have hmore := spells_renderFields level more next nextValue
      (spells_renderAt (level + 1) nextValue)
    have htext : renderFields (level + 1) ((next, nextValue) :: more) ++ newLine level
        = [] ++ ',' :: (newLine (level + 1) ++ '"' :: (escape next.toList ++ '"' :: ([] ++ ':' ::
          ([' '] ++ (renderAt (level + 1) nextValue ++
            (renderFields (level + 1) more ++ newLine level)))))) := by
      simp [renderFields, quote]
    have hname := spellsText_escape name.toList
    have hfield := Spells.field (isBlankText_newLine (level + 1)) hname isBlankText_nil
      isBlankText_space hvalue isBlankText_nil hmore
    rw [String.ofList_toList] at hfield
    rw [htext, fieldMeanings]
    exact hfield

end

/-- A value that is written is JSON for what it stands for. -/
theorem isDocument_render (value : Json) : IsDocument value.render value.meaning :=
  ⟨[], value.render, [], isBlankText_nil, spells_renderAt 0 value, isBlankText_nil, by simp⟩

end Json

/-! ### The report -/

/-- What a path is shown as. -/
theorem meaning_jsonPath (p : Path) :
    (jsonPath p).meaning = .text (String.ofList (displayPath p)) := rfl

/-- The JSON report is JSON for an object of seven fields, and for nothing else: the version,
the root, how many files there are and how many of them nothing imports, and in their order
the files that nothing imports, the files that could not be read with the reason, and the
references without a target with their files. A reader of JSON finds it. -/
theorem renderJson_faithful (r : ScanReport) :
    let shown : Path → JsonValue := fun p => .text (String.ofList (displayPath p))
    let expected : JsonValue := .object [
      ("version", .text "1.0"),
      ("root", .text r.root.display),
      ("scanned_files", .number ⟨r.scannedFiles, 0⟩),
      ("total_unused", .number ⟨r.unusedFiles.length, 0⟩),
      ("unused_files", .list (r.unusedFiles.map shown)),
      ("read_errors", .list (r.readErrors.map fun f =>
        .object [("file", shown f.file), ("error", .text f.error)])),
      ("unresolved_references", .list (r.unresolved.map fun u =>
        .object [("file", shown u.file), ("specifier", .text u.specifier)]))]
    (∀ v, IsDocument r.renderJson v ↔ v = expected) ∧
      JsonText.read r.renderJson = some expected := by
  intro shown expected
  have hmeaning : r.toJson.meaning = expected := by
    simp only [ScanReport.toJson, Json.meaning, Json.fieldMeanings, Json.meanings_map,
      ReadFailure.toJson, UnresolvedReference.toJson, meaning_jsonPath]
    rfl
  have hdocument : IsDocument r.renderJson expected := by
    rw [← hmeaning]
    exact Json.isDocument_render r.toJson
  refine ⟨fun v => ⟨fun hv => hv.unique hdocument, ?_⟩, read_of_isDocument hdocument⟩
  rintro rfl
  exact hdocument

end Unimported
