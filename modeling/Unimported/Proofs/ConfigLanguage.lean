import Unimported.Config.File
import Unimported.Proofs.Scan
import Unimported.Proofs.TomlAsYaml

/-!
# `Unimported.Proofs.ConfigLanguage`: TOML under a name that does not tell

A configuration file whose extension is unknown is tried as YAML first, and what YAML
accepts is never tried as TOML. A text of both languages then means what it means in YAML,
where a key that no field has is passed over in silence. Such texts are rare, and their
first line or the comments before it give them away. The statements:

* `load_unknownExtension`: under an unknown extension a TOML configuration is loaded as in a
  file with the extension `toml`, unless it is a YAML configuration as well; and what
  `IsUnmistakable` asks for rules that out.
* `load_unknownExtension_ne_load_toml`: two texts that hold a configuration in both
  languages, and another one in each.
-/

set_option autoImplicit false

namespace Unimported.Config

/-- A file with none of the three extensions may be in either language. -/
theorem languageOf_of_extension {p : Path}
    (h : ∀ name ∈ ["yml", "yaml", "toml"], p.extension? ≠ some (Utf8.encode name.toList)) :
    languageOf p = .either := by
  have hyml := h "yml" (by simp)
  have hyaml := h "yaml" (by simp)
  have htoml := h "toml" (by simp)
  rw [languageOf]
  split
  · rfl
  next bytes hbytes =>
    rw [hbytes] at hyml hyaml htoml
    rw [if_neg, if_neg]
    · exact fun heq => htoml (congrArg some heq)
    · rintro (heq | heq)
      · exact hyml (congrArg some heq)
      · exact hyaml (congrArg some heq)

/-- A file with the extension of TOML is read as TOML alone. -/
theorem languageOf_toml {q : Path} (h : q.extension? = some (Utf8.encode "toml".toList)) :
    languageOf q = .toml := by
  rw [languageOf, h]
  decide

/-- **A TOML configuration under an unknown extension.** Take a text that holds a
configuration in TOML, and two files with this text: one with the extension `toml`, and one
with an extension that is none of `yml`, `yaml` and `toml`. The first file gives the
configuration. The second one gives it unless the text holds a configuration in YAML too,
for YAML is tried first. A text that is unmistakable gives the same configuration in both
files. -/
theorem load_unknownExtension {w : Workspace} {p q : Path} {text : List Char} {c : Config}
    (hp : ∀ name ∈ ["yml", "yaml", "toml"], p.extension? ≠ some (Utf8.encode name.toList))
    (hq : q.extension? = some (Utf8.encode "toml".toList))
    (hptext : w.readText p = .ok text) (hqtext : w.readText q = .ok text)
    (h : ofTomlText? text = some c) :
    load w q = .ok c.normalized ∧
      load w p = .ok ((ofYamlText? text).getD c).normalized ∧
      (IsUnmistakable text → load w p = .ok c.normalized) := by
  have hload : load w p = .ok ((ofYamlText? text).getD c).normalized := by
    rw [load, hptext, languageOf_of_extension hp]
    cases hyaml : ofYamlText? text with
    | none => simp [ofText, hyaml, h, Except.map]
    | some d => simp [ofText, hyaml, Except.map]
  refine ⟨?_, hload, fun hclear => ?_⟩
  · rw [load, hqtext, languageOf_toml hq]
    simp [ofText, h, Except.map]
  · rw [hload]
    cases hyaml : ofYamlText? text with
    | none => rfl
    | some d => rw [ofYamlText?_of_isUnmistakable h hclear hyaml, Option.getD_some]

/-- Texts that hold a configuration in TOML, each in a file with the extension `toml` and in
one without an extension. -/
def colonFiles : Workspace :=
  Workspace.ofFiles [
    ("clear", "vendor_dir = \"a:b\" # c: d"), ("clear.toml", "vendor_dir = \"a:b\" # c: d"),
    ("colon", "vendor_dir = \"a: b\""), ("colon.toml", "vendor_dir = \"a: b\""),
    ("break", "#\u2028vendor_dir: a"), ("break.toml", "#\u2028vendor_dir: a")]

/-- The names and the text of the first two files fit the theorem. -/
theorem load_unknownExtension_clearFile :
    (∀ name ∈ ["yml", "yaml", "toml"],
      (Path.ofString "clear").extension? ≠ some (Utf8.encode name.toList)) ∧
    (Path.ofString "clear.toml").extension? = some (Utf8.encode "toml".toList) ∧
    IsUnmistakable "vendor_dir = \"a:b\" # c: d".toList ∧
    load colonFiles (Path.ofString "clear") = .ok { vendorDir := "a:b" } := by
  have hp : ∀ name ∈ ["yml", "yaml", "toml"],
      (Path.ofString "clear").extension? ≠ some (Utf8.encode name.toList) := by decide +kernel
  have hq : (Path.ofString "clear.toml").extension? = some (Utf8.encode "toml".toList) := by
    decide +kernel
  have hptext : colonFiles.readText (Path.ofString "clear") =
      .ok "vendor_dir = \"a:b\" # c: d".toList := by decide +kernel
  have hqtext : colonFiles.readText (Path.ofString "clear.toml") =
      .ok "vendor_dir = \"a:b\" # c: d".toList := by decide +kernel
  have htoml : ofTomlText? "vendor_dir = \"a:b\" # c: d".toList =
      some { vendorDir := "a:b" } := by decide +kernel
  have hclear : IsUnmistakable "vendor_dir = \"a:b\" # c: d".toList := by decide +kernel
  have hnormal : ({ vendorDir := "a:b" } : Config).normalized = { vendorDir := "a:b" } := by
    decide +kernel
  refine ⟨hp, hq, hclear, ?_⟩
  rw [← hnormal]
  exact (load_unknownExtension hp hq hptext hqtext htoml).2.2 hclear

/-- The other texts are mappings in YAML. In the first one all that stands before the colon
is the key, which no field has, and every default holds. In the second one a comment ends
where only YAML ends a line. -/
theorem load_unknownExtension_ne_load_toml :
    (∀ name ∈ ["yml", "yaml", "toml"],
      (Path.ofString "colon").extension? ≠ some (Utf8.encode name.toList)) ∧
    colonFiles.readText (Path.ofString "colon") = .ok "vendor_dir = \"a: b\"".toList ∧
    ofTomlText? "vendor_dir = \"a: b\"".toList = some { vendorDir := "a: b" } ∧
    load colonFiles (Path.ofString "colon.toml") = .ok { vendorDir := "a: b" } ∧
    load colonFiles (Path.ofString "colon") = .ok {} ∧
    load colonFiles (Path.ofString "break.toml") = .ok {} ∧
    load colonFiles (Path.ofString "break") = .ok { vendorDir := "a" } := by
  decide +kernel

end Unimported.Config
