import Unimported.Proofs.Json.Report
import Unimported.Proofs.LexicalLookup
import Unimported.Proofs.Text.Utf8

/-!
# `Unimported.Proofs.ShownPaths`: the files that a report names

A report shows a file with slashes in the place of backslashes. Where a backslash separates
directories this is another spelling of the same path, but here it is a byte like any other,
and a file whose name has one is shown as a file in a directory, which may well exist and be
used. Nothing else goes wrong: what is no backslash is read back as it was. The statements:

* `unusedFiles?_renderJson`, `unresolvedReferences?_renderJson`: the strings that the JSON report
  lists.
* `ofChars_displayPath`: a path as shown, read back, is the path with slashes for backslashes.
* `slashed_sameAs_iff`: this is the same path exactly if there was no backslash in it.
* `shownFiles_iff`: which of the files in a report are named by what is shown of them, and
  when no two of them are shown alike.
* `shownFiles_crossed`: an unused file that is shown under the name of a used one.
-/

set_option autoImplicit false

namespace Unimported

open Unimported.Path

/-! ### What a report lists -/

/-- The text that a JSON value is. -/
def JsonValue.text? : JsonValue → Option String
  | text value => some value
  | _ => none

/-- The strings that a JSON text lists under `unused_files`. -/
def JsonText.unusedFiles? (text : List Char) : Option (List String) :=
  match JsonText.read text with
  | some (.object fields) =>
    match fields.lookup "unused_files" with
    | some (.list items) => items.mapM JsonValue.text?
    | _ => none
  | _ => none

/-- The file and the specifier of a JSON object that has both. -/
def JsonValue.reference? : JsonValue → Option (String × String)
  | object fields =>
    match fields.lookup "file", fields.lookup "specifier" with
    | some (text file), some (text specifier) => some (file, specifier)
    | _, _ => none
  | _ => none

/-- The files and specifiers that a JSON text lists under `unresolved_references`. -/
def JsonText.unresolvedReferences? (text : List Char) : Option (List (String × String)) :=
  match JsonText.read text with
  | some (.object fields) =>
    match fields.lookup "unresolved_references" with
    | some (.list items) => items.mapM JsonValue.reference?
    | _ => none
  | _ => none

/-- If every written item can be read, all of them can. -/
theorem mapM_map_eq_some {α β γ : Type} {write : α → β} {read : β → Option γ} {seen : α → γ}
    (h : ∀ x, read (write x) = some (seen x)) (xs : List α) :
    (xs.map write).mapM read = some (xs.map seen) := by
  induction xs with
  | nil => rfl
  | cons x xs ih =>
    rw [List.map_cons, List.mapM_cons, ih, h]
    rfl

/-- The JSON report lists every unused file as it is shown, in order. -/
theorem unusedFiles?_renderJson (r : ScanReport) :
    JsonText.unusedFiles? r.renderJson
      = some (r.unusedFiles.map fun p => String.ofList (displayPath p)) := by
  have hread : JsonText.read r.renderJson = some r.toJson.meaning :=
    JsonText.read_of_isDocument (Json.isDocument_render r.toJson)
  have hitems : (r.unusedFiles.map fun p => (jsonPath p).meaning).mapM JsonValue.text?
      = some (r.unusedFiles.map fun p => String.ofList (displayPath p)) :=
    mapM_map_eq_some (by intro p; rfl) r.unusedFiles
  simp only [ScanReport.toJson, Json.meaning, Json.fieldMeanings, Json.meanings_map] at hread
  rw [JsonText.unusedFiles?, hread]
  exact hitems

/-- The JSON report lists every reference without a target with its file as it is shown, in
order. -/
theorem unresolvedReferences?_renderJson (r : ScanReport) :
    JsonText.unresolvedReferences? r.renderJson
      = some (r.unresolved.map fun u => (String.ofList (displayPath u.file), u.specifier)) := by
  have hread : JsonText.read r.renderJson = some r.toJson.meaning :=
    JsonText.read_of_isDocument (Json.isDocument_render r.toJson)
  have hitems : (r.unresolved.map fun u => u.toJson.meaning).mapM JsonValue.reference?
      = some (r.unresolved.map fun u => (String.ofList (displayPath u.file), u.specifier)) :=
    mapM_map_eq_some (by intro u; rfl) r.unresolved
  simp only [ScanReport.toJson, Json.meaning, Json.fieldMeanings, Json.meanings_map] at hread
  rw [JsonText.unresolvedReferences?, hread]
  exact hitems

/-! ### What is shown of a path -/

/-- The byte of a backslash. -/
def backslash : UInt8 := 92

/-- Whether a path is text: the bytes of some characters. -/
def Path.IsText (p : Path) : Prop :=
  ∃ text, p = ofChars text

/-- A path with slashes in the place of its backslashes. -/
def Path.slashed (p : Path) : Path :=
  ⟨p.bytes.map fun b => if b = backslash then slash else b⟩

/-- Writing a text commutes with writing slashes for backslashes. -/
theorem encode_map_slash (text : List Char) :
    Utf8.encode (text.map fun c => if c = '\\' then '/' else c)
      = (Utf8.encode text).map fun b => if b = backslash then slash else b := by
  unfold Utf8.encode
  rw [List.flatMap_map, List.map_flatMap]
  refine List.flatMap_congr fun c _ => ?_
  split
  · rename_i hc
    subst hc
    decide
  · -- No other character has the byte of a backslash.
    rename_i hc
    refine (List.map_id _).symm.trans (List.map_congr_left fun b hb => ?_)
    rw [if_neg]
    · rfl
    · rintro rfl
      exact hc (Utf8.eq_ofNat_of_mem_encodeChar (by decide) hb)

/-- What is shown of a path of text, read back as a path. -/
theorem ofChars_displayPath {p : Path} (h : p.IsText) : ofChars (displayPath p) = p.slashed := by
  obtain ⟨text, rfl⟩ := h
  have hchars : (ofChars text).chars = text := Utf8.decodeLossy_encode text
  rw [displayPath, hchars, ofChars, encode_map_slash]
  rfl

/-- With slashes in their place there are no backslashes. -/
theorem backslash_notMem_slashed (p : Path) : backslash ∉ p.slashed.bytes := by
  intro h
  obtain ⟨b, -, hb⟩ := List.mem_map.mp h
  split at hb
  · cases hb
  · rename_i hne
    exact hne hb

/-- A path is left as it is exactly if it has no backslash. -/
theorem slashed_eq_iff {p : Path} : p.slashed = p ↔ backslash ∉ p.bytes := by
  constructor
  · intro h
    rw [← h]
    exact backslash_notMem_slashed p
  · intro h
    refine eq_of_bytes_eq ((List.map_congr_left fun b hb => ?_).trans (List.map_id _))
    rw [if_neg]
    · rfl
    · rintro rfl
      exact h hb

/-- Which bytes a path has besides slashes and dots is told by its components. -/
theorem mem_bytes_iff_component (p : Path) {b : UInt8} (hslash : b ≠ slash) (hdot : b ≠ dot) :
    b ∈ p.bytes ↔ ∃ c ∈ p.components, b ∈ c.bytes := by
  have hlead : ∀ c ∈ p.lead, b ∉ c.bytes := by
    unfold lead
    split
    · simp [Component.bytes, hslash]
    · split <;> simp [Component.bytes, hdot]
  rw [mem_bytes_iff_exists p hslash hdot, ← map_bytes_body, components_eq]
  constructor
  · rintro ⟨segment, hsegment, hb⟩
    obtain ⟨c, hc, rfl⟩ := List.mem_map.mp hsegment
    exact ⟨c, List.mem_append_right _ hc, hb⟩
  · rintro ⟨c, hc, hb⟩
    rcases List.mem_append.mp hc with hc | hc
    · exact absurd hb (hlead c hc)
    · exact ⟨c.bytes, List.mem_map_of_mem hc, hb⟩

/-- With slashes for its backslashes a path is the same path, however it is spelled, only if it
has no backslash. -/
theorem slashed_sameAs_iff {p : Path} : p.slashed.sameAs p = true ↔ backslash ∉ p.bytes := by
  constructor
  · intro h hmem
    rw [mem_bytes_iff_component p (by decide) (by decide), ← sameAs_iff.mp h,
      ← mem_bytes_iff_component _ (by decide) (by decide)] at hmem
    exact backslash_notMem_slashed p hmem
  · intro h
    rw [slashed_eq_iff.mpr h]
    exact sameAs_iff.mpr rfl

/-! ### What is shown of the unused files -/

/-- Two paths of text are shown alike exactly if they differ in nothing but slashes and
backslashes. -/
theorem displayPath_eq_iff {p q : Path} (hp : p.IsText) (hq : q.IsText) :
    displayPath p = displayPath q ↔ p.slashed = q.slashed := by
  rw [← ofChars_displayPath hp, ← ofChars_displayPath hq]
  constructor
  · intro h
    rw [h]
  · intro h
    exact Utf8.encode_injective (Path.mk.inj h)

/-- How far the strings that the JSON report lists tell the unused files.

1. A string, read back as a path, is its file exactly if the file has no backslash in its
   path.
2. The strings are pairwise distinct exactly if no two files differ only in that one has
   slashes where the other has backslashes.
3. So without a backslash the strings, read back, are the list of the files, and they are
   pairwise distinct. -/
theorem shownFiles_iff (r : ScanReport) (htext : ∀ p ∈ r.unusedFiles, p.IsText)
    (hdistinct : r.unusedFiles.Nodup) :
    ∃ names, JsonText.unusedFiles? r.renderJson = some names ∧
      List.Forall₂ (fun name p => (Path.ofString name).sameAs p = true ↔ backslash ∉ p.bytes)
        names r.unusedFiles ∧
      (names.Nodup ↔
        ∀ p ∈ r.unusedFiles, ∀ q ∈ r.unusedFiles, p.slashed = q.slashed → p = q) ∧
      ((∀ p ∈ r.unusedFiles, backslash ∉ p.bytes) →
        names.map Path.ofString = r.unusedFiles ∧ names.Nodup) := by
  have hback : ∀ p ∈ r.unusedFiles,
      Path.ofString (String.ofList (displayPath p)) = p.slashed := by
    intro p hp
    rw [Path.ofString, String.toList_ofList]
    exact ofChars_displayPath (htext p hp)
  -- The files are distinct, so their strings are distinct exactly if showing is injective on them.
  have hnodup : (r.unusedFiles.map fun p => String.ofList (displayPath p)).Nodup ↔
      ∀ p ∈ r.unusedFiles, ∀ q ∈ r.unusedFiles, p.slashed = q.slashed → p = q := by
    rw [List.nodup_map_iff_inj_on hdistinct]
    refine forall₄_congr fun p hp q hq => ?_
    rw [String.ofList_inj, displayPath_eq_iff (htext p hp) (htext q hq)]
  refine ⟨_, unusedFiles?_renderJson r, ?_, hnodup, fun hnone => ⟨?_, hnodup.mpr ?_⟩⟩
  · rw [List.forall₂_map_left_iff, List.forall₂_same]
    intro p hp
    rw [hback p hp]
    exact slashed_sameAs_iff
  · rw [List.map_map]
    refine (List.map_congr_left fun p hp => ?_).trans (List.map_id _)
    exact (hback p hp).trans (slashed_eq_iff.mpr (hnone p hp))
  · intro p hp q hq h
    rwa [slashed_eq_iff.mpr (hnone p hp), slashed_eq_iff.mpr (hnone q hq)] at h

/-- A report about files with unusual names. -/
def unusualReport : ScanReport where
  root := Path.ofString "app"
  scannedFiles := 3
  unusedFiles := ["a \"b\".ts", "ä/→\t.ts", "ä/\n- c.ts"].map Path.ofString
  readErrors := []
  unresolved := []

/-- Quotes, control characters and characters beyond ASCII are read back as they were. -/
theorem shownFiles_iff_unusualReport :
    ((∀ p ∈ unusualReport.unusedFiles, p.IsText) ∧ unusualReport.unusedFiles.Nodup ∧
      ∀ p ∈ unusualReport.unusedFiles, backslash ∉ p.bytes) ∧
    ∃ names, JsonText.unusedFiles? unusualReport.renderJson = some names ∧
      names.map Path.ofString = unusualReport.unusedFiles ∧ names.Nodup := by
  have htext : ∀ p ∈ unusualReport.unusedFiles, p.IsText := by
    intro p hp
    obtain ⟨name, -, rfl⟩ := List.mem_map.mp hp
    exact ⟨name.toList, rfl⟩
  have hdistinct : unusualReport.unusedFiles.Nodup := by decide +kernel
  have hnone : ∀ p ∈ unusualReport.unusedFiles, backslash ∉ p.bytes := by decide +kernel
  obtain ⟨names, hnames, -, -, hback⟩ := shownFiles_iff unusualReport htext hdistinct
  exact ⟨⟨htext, hdistinct, hnone⟩, names, hnames, hback hnone⟩

/-- A page that imports `a/b.ts`, and files whose names are paths of other files but for the
backslash. -/
def crossedTree : Workspace :=
  Workspace.ofFiles [("app/index.ts", "import './a/b'"), ("app/a/b.ts", ""), ("app/a\\b.ts", ""),
    ("app/x/y.ts", ""), ("app/x\\y.ts", "")]

/-- An unused file is shown under the name of a used one, and two unused files under one
name. -/
theorem shownFiles_crossed :
    let r := scan crossedTree {} (Path.ofString "app")
    r.unusedFiles = ["a\\b.ts", "x/y.ts", "x\\y.ts"].map Path.ofString ∧
      crossedTree.isFile (Path.ofString "app/a/b.ts") = true ∧
      JsonText.unusedFiles? r.renderJson = some ["a/b.ts", "x/y.ts", "x/y.ts"] := by
  intro r
  have hunused : r.unusedFiles = ["a\\b.ts", "x/y.ts", "x\\y.ts"].map Path.ofString := by
    decide +kernel
  refine ⟨hunused, by decide +kernel, ?_⟩
  rw [unusedFiles?_renderJson, hunused]
  decide +kernel

end Unimported
