import Unimported.Proofs.ConfigOption
import Unimported.Proofs.ExtensionSuffix
import Unimported.Run

/-!
# `Unimported.Proofs.EffectiveConfig`: the configuration under the options of a command

The configuration that a command is carried out with comes from a file or is the default one,
and the options of the command are put over it. Extensions are put into their form twice where
they come from a file, after the file is read and under the options, and once where they are
options. Both come to the same: a list in this form is left as it is. The statements:

* `dotted_dotted`, `dotted_of_addsDots`: the form is final, and it does not matter which
  leading dots are written.
* `Command.override_normalized`: what a file holds may be put into its form before the options
  or not.
* `Command.normalized_of_baseConfig`: the configuration under the options is in its form.
* `Command.override_of_addsDots`: extensions as options, and in the configuration under them.
* `Command.configure_effective`: every field of the configuration, and what an option does to it.
-/

set_option autoImplicit false

namespace Unimported

namespace Config

/-! ### The form of extensions -/

/-- Extensions in the form that a scan takes them in: with their leading dots, and without the
empty ones. -/
def dotted (extensions : List String) : List String :=
  (extensions.filter (· ≠ "")).map withDot

/-- A configuration is put into its form by its extensions alone. -/
theorem normalized_eq (c : Config) : c.normalized = { c with extensions := dotted c.extensions } :=
  rfl

/-- In this form an extension is nonempty and starts with a dot. -/
theorem mem_dotted {extensions : List String} {e : String} (h : e ∈ dotted extensions) :
    e ≠ "" ∧ e.toList.head? = some '.' := by
  obtain ⟨rest, hrest⟩ := exists_dot_of_normalized (c := { extensions }) h
  refine ⟨?_, by rw [hrest, List.head?_cons]⟩
  rintro rfl
  cases hrest

/-- Extensions that are in this form are left as they are. -/
theorem dotted_eq_self {extensions : List String}
    (h : ∀ e ∈ extensions, e ≠ "" ∧ e.toList.head? = some '.') :
    dotted extensions = extensions := by
  have hkept : extensions.filter (· ≠ "") = extensions :=
    List.filter_eq_self.mpr fun e he => by simpa using (h e he).1
  have hsame : ∀ e ∈ extensions, withDot e = id e := fun e he => if_pos (h e he).2
  rw [dotted, hkept, List.map_congr_left hsame, List.map_id]

/-- The form is final. -/
theorem dotted_dotted (extensions : List String) :
    dotted (dotted extensions) = dotted extensions :=
  dotted_eq_self fun _ => mem_dotted

/-- Whether a list of extensions comes from another one by writing some of the leading dots that
were left out. -/
def AddsDots : List String → List String → Prop :=
  List.Forall₂ fun e e' => e' = e ∨ e ≠ "" ∧ e.toList.head? ≠ some '.' ∧ e' = "." ++ e

/-- The form is made extension by extension. -/
theorem dotted_cons (e : String) (rest : List String) :
    dotted (e :: rest) = if e = "" then dotted rest else withDot e :: dotted rest := by
  by_cases he : e = ""
  · simp [dotted, he]
  · simp [dotted, he]

/-- A leading dot may be written or left out. -/
theorem dotted_of_addsDots {before after : List String} (h : AddsDots before after) :
    dotted after = dotted before := by
  induction h with
  | nil => rfl
  | @cons e e' before after hspelled _ ih =>
    rcases hspelled with rfl | ⟨hne, hhead, rfl⟩
    · rw [dotted_cons, dotted_cons, ih]
    · have hdot : ("." ++ e).toList.head? = some '.' := by simp
      have hne' : "." ++ e ≠ "" := by
        intro hempty
        rw [hempty] at hdot
        cases hdot
      rw [dotted_cons, dotted_cons, if_neg hne, if_neg hne', withDot, withDot, if_pos hdot,
        if_neg hhead, ih]

/-- A configuration that is put into its form twice is as it was after the first time. -/
theorem normalized_normalized (c : Config) : c.normalized.normalized = c.normalized := by
  rw [normalized_eq, normalized_eq, dotted_dotted]

/-! ### Where a configuration comes from -/

/-- A configuration that is read from a file is in its form. -/
theorem normalized_of_load {w : Workspace} {p : Path} {c : Config} (h : load w p = .ok c) :
    c.normalized = c := by
  unfold load at h
  split at h
  · cases h
  · obtain ⟨written, -, rfl⟩ := CommandLine.exists_of_map_eq_ok h
    exact normalized_normalized written

/-- The configuration that the search comes to is in its form, and so is the default one. -/
theorem normalized_probe (w : Workspace) (root : Path) :
    (probe w root).1.normalized = (probe w root).1 := by
  have hdefault : ({} : Config).normalized = {} := by decide +kernel
  unfold probe
  split
  · exact hdefault
  · split
    · rename_i c hload
      exact normalized_of_load hload
    · exact hdefault

end Config

namespace Command

variable {command : Command} {w : Workspace} {config base : Config} {log : List LogLine}

/-- The file that a command takes its configuration from: the one it asks for, or else the one
that is found under the root. -/
def configFile? (command : Command) (w : Workspace) : Option Path :=
  match command.config? with
  | some p => some p
  | none => Config.fileUnder? w command.root

/-- Whether this file can be read and holds a configuration, just as it is written there. -/
def Finds (command : Command) (w : Workspace) (written : Config) : Prop :=
  ∃ p text, command.configFile? w = some p ∧ w.readText p = .ok text ∧
    Config.ofText (Config.languageOf p) text = .ok written

/-- What is written in the file is put into its form before any option. -/
theorem baseConfig_of_finds {written : Config} (h : command.Finds w written) :
    command.baseConfig w = .ok (written.normalized, []) := by
  obtain ⟨p, text, hfile, htext, hwritten⟩ := h
  have hload : Config.load w p = .ok written.normalized := by
    simp only [Config.load, htext, hwritten]
    rfl
  unfold configFile? at hfile
  unfold baseConfig
  cases hconfig : command.config? with
  | some q =>
    rw [hconfig] at hfile
    cases hfile
    simp only [hload]
    rfl
  | none =>
    rw [hconfig] at hfile
    simp only [Config.probe, hfile, hload]

/-- The configuration under the options is in its form. -/
theorem normalized_of_baseConfig (h : command.baseConfig w = .ok (base, log)) :
    base.normalized = base := by
  unfold baseConfig at h
  split at h
  · obtain ⟨loaded, hload, heq⟩ := CommandLine.exists_of_map_eq_ok h
    cases heq
    exact Config.normalized_of_load hload
  · have hprobe : (Config.probe w command.root).1 = base := by rw [Except.ok.inj h]
    rw [← hprobe]
    exact Config.normalized_probe w command.root

/-! ### Options over a configuration -/

/-- With a configuration to put the options over, a command has a configuration. -/
theorem configure_of_baseConfig (h : command.baseConfig w = .ok (base, log)) :
    command.configure w = .ok (command.override base, log) := by
  rw [configure, h]
  rfl

/-- A configuration that a command has is one with the options put over it. -/
theorem exists_of_configure (h : command.configure w = .ok (config, log)) :
    ∃ base, command.baseConfig w = .ok (base, log) ∧ command.override base = config := by
  obtain ⟨⟨base, lines⟩, hbase, heq⟩ := CommandLine.exists_of_map_eq_ok h
  cases heq
  exact ⟨base, hbase, rfl⟩

/-- What a file holds may be put into its form before the options are put over it or not. -/
theorem override_normalized (command : Command) (config : Config) :
    command.override config.normalized = command.override config := by
  by_cases hnone : command.extensions = []
  · simp only [override, if_pos hnone, Config.normalized_eq, Config.dotted_dotted]
  · simp only [override, if_neg hnone, Config.normalized_eq]

/-- Extensions that are given as options take the place of those under them. -/
theorem override_extensions (command : Command) (hbase : base.normalized = base) :
    (command.override base).extensions =
      if command.extensions = [] then base.extensions
      else Config.dotted command.extensions := by
  show Config.dotted (if command.extensions = [] then base.extensions else command.extensions) = _
  split
  · exact congrArg Config.extensions hbase
  · rfl

/-- Extensions that are given as options do what the same extensions do in the configuration
under the options, whichever of their leading dots are written in either place. -/
theorem override_of_addsDots (command : Command) (base : Config) {before after : List String}
    (hbefore : before ≠ []) (hspelled : Config.AddsDots before after) :
    { command with extensions := after }.override base =
        { command with extensions := before }.override base ∧
      { command with extensions := [] }.override { base with extensions := after } =
        { command with extensions := before }.override base := by
  have hafter : after ≠ [] := by
    rintro rfl
    cases hspelled
    exact hbefore rfl
  have hsame := Config.dotted_of_addsDots hspelled
  constructor
  · simp only [override, if_neg hbefore, if_neg hafter, Config.normalized_eq, hsame]
  · simp only [override, if_neg hbefore, if_pos, Config.normalized_eq, hsame]

/-- The configuration that a command is carried out with.

1. It is made of the configuration under the options, field by field.
2. Every extension in it is nonempty and starts with a dot, wherever it comes from.
3. A nonempty list of extensions has the same result in three places: as options, in the
   configuration under the options, and in the file that this one is read from. It also has the
   same result with some of the dots that it lacks.
4. An option has no part in a field that is not its own, and those that are not about the
   configuration have no part in any field.
5. This is how arguments work as well. One that stands in front of the others changes one field
   of the command, and several extensions are put in front together. -/
theorem configure_effective (h : command.configure w = .ok (config, log)) :
    ∃ base, command.baseConfig w = .ok (base, log) ∧
      config =
        { vendorDir := command.vendorDir?.getD base.vendorDir
          extensions :=
            if command.extensions = [] then base.extensions else Config.dotted command.extensions
          entryPoints := base.entryPoints ++ command.entryPoints
          report :=
            { format := (command.format?.map ReportFormat.name).getD base.report.format
              showUnresolved := base.report.showUnresolved || command.showUnresolved } } ∧
      (∀ e ∈ config.extensions, e ≠ "" ∧ e.toList.head? = some '.') ∧
      (∀ L, L ≠ [] → ∃ result, ∀ L', Config.AddsDots L L' →
        { command with extensions := L' }.configure w = .ok (result, log) ∧
        { command with extensions := [] }.override { base with extensions := L' } = result ∧
        ∀ w', { command with extensions := [] }.Finds w' { base with extensions := L' } →
          { command with extensions := [] }.configure w' = .ok (result, [])) ∧
      ((∀ v, { command with vendorDir? := v }.configure w
          = .ok ({ config with vendorDir := v.getD base.vendorDir }, log)) ∧
        (∀ L, { command with extensions := L }.configure w
          = .ok ({ config with
              extensions := if L = [] then base.extensions else Config.dotted L }, log)) ∧
        (∀ names, { command with entryPoints := names }.configure w
          = .ok ({ config with entryPoints := base.entryPoints ++ names }, log)) ∧
        (∀ f, { command with format? := f }.configure w
          = .ok ({ config with
              report.format := (f.map ReportFormat.name).getD base.report.format }, log)) ∧
        (∀ shown, { command with showUnresolved := shown }.configure w
          = .ok ({ config with
              report.showUnresolved := base.report.showUnresolved || shown }, log)) ∧
        ∀ output? verbose quiet, { command with output?, verbose, quiet }.configure w
          = .ok (config, log)) ∧
      ∀ arguments, CommandLine.parse arguments = .ok command →
        (∀ o : CommandLine.ConfigOption,
          (CommandLine.parse (o.argument :: arguments)).toOption = o.putInto? command) ∧
        ∀ L, (CommandLine.parse (CommandLine.extensionArguments L ++ arguments)).toOption
          = some { command with extensions := L ++ command.extensions } := by
  obtain ⟨base, hbase, rfl⟩ := exists_of_configure h
  have hform := normalized_of_baseConfig hbase
  -- The configuration under the options is the same for every command below.
  have hconfigure : ∀ other : Command, other.config? = command.config? →
      other.path? = command.path? → other.configure w = .ok (other.override base, log) := by
    intro other hfile hroot
    refine configure_of_baseConfig ?_
    rw [← hbase, baseConfig, baseConfig, root, root, hfile, hroot]
  refine ⟨base, hbase, ?_, ?_, ?_, ⟨?_, ?_, ?_, ?_, ?_, ?_⟩, ?_⟩
  · rw [← override_extensions command hform]
    rfl
  · exact fun e he => Config.mem_dotted he
  · intro L hL
    refine ⟨{ command with extensions := L }.override base, fun L' hspelled => ?_⟩
    obtain ⟨hoptions, hunder⟩ := override_of_addsDots command base hL hspelled
    refine ⟨?_, hunder, fun w' hfinds => ?_⟩
    · rw [← hoptions]
      exact hconfigure _ rfl rfl
    · rw [configure_of_baseConfig (baseConfig_of_finds hfinds), override_normalized, hunder]
  · exact fun v => hconfigure _ rfl rfl
  · intro L
    have hown := override_extensions { command with extensions := L } hform
    rw [hconfigure { command with extensions := L } rfl rfl, ← hown]
    rfl
  · exact fun names => hconfigure _ rfl rfl
  · exact fun f => hconfigure _ rfl rfl
  · exact fun shown => hconfigure _ rfl rfl
  · exact fun output? verbose quiet => hconfigure _ rfl rfl
  · intro arguments hparse
    refine ⟨fun o => ?_, fun L => ?_⟩
    · rw [CommandLine.parse_argument, hparse]
      rfl
    · rw [CommandLine.parse_extensions, hparse]
      rfl

/-- An app whose configuration file has these extensions, written as in the file. -/
def listedApp (extensions : String) : Workspace :=
  Workspace.ofFiles [("app/deadfiles.toml", "extensions = " ++ extensions)]

/-- Options take the place of the extensions in the file. The file with the same extensions has
the same result without them, even if one of them has its dot only there. -/
theorem configure_effective_listedApp :
    let command : Command :=
      { path? := some (Path.ofString "app"), extensions := ["ts", "", ".vue"]
        entryPoints := ["boot"], format? := some .json }
    let config : Config :=
      { extensions := [".ts", ".vue"]
        entryPoints := ({} : Config).entryPoints ++ ["boot"], report.format := "json" }
    command.configure (listedApp "['js']") = .ok (config, []) ∧
    { command with extensions := [] }.configure (listedApp "['.ts', '', '.vue']")
      = .ok (config, []) ∧
    { command with extensions := [], showUnresolved := true }.configure
        (listedApp "['.ts', '', '.vue']")
      = .ok ({ config with report.showUnresolved := true }, []) := by
  intro command config
  have hoptions : command.configure (listedApp "['js']") = .ok (config, []) := by
    decide +kernel
  -- The theorem is applied with the options and, once more, with the extensions in the file.
  obtain ⟨base, hbase, -, -, hplaces, -⟩ := configure_effective hoptions
  have hbase' : command.baseConfig (listedApp "['js']")
      = .ok ({ extensions := [".js"] }, []) := by decide +kernel
  obtain rfl : base = { extensions := [".js"] } := by
    rw [hbase'] at hbase
    cases hbase
    rfl
  obtain ⟨result, hresult⟩ := hplaces ["ts", "", ".vue"] (by decide)
  have hspelled : Config.AddsDots ["ts", "", ".vue"] [".ts", "", ".vue"] :=
    .cons (.inr (by decide +kernel)) (.cons (.inl rfl) (.cons (.inl rfl) .nil))
  have hfinds : { command with extensions := [] }.Finds (listedApp "['.ts', '', '.vue']")
      { extensions := [".ts", "", ".vue"] } := by
    refine ⟨(Path.ofString "app").join (Path.ofString "deadfiles.toml"),
      "extensions = ['.ts', '', '.vue']".toList, ?_, ?_, ?_⟩
    · decide +kernel
    · decide +kernel
    · decide +kernel
  obtain ⟨hwithout, -⟩ := hresult _ (List.forall₂_same.mpr fun _ _ => .inl rfl)
  obtain rfl : result = config := by
    rw [hoptions] at hwithout
    cases hwithout
    rfl
  obtain ⟨-, -, hfile⟩ := hresult _ hspelled
  have hfile' := hfile _ hfinds
  obtain ⟨under, -, -, -, -, ⟨-, -, -, -, hshown, -⟩, -⟩ := configure_effective hfile'
  have hlisted := hshown true
  rw [Bool.or_true] at hlisted
  exact ⟨hoptions, hfile', hlisted⟩

end Command

end Unimported
