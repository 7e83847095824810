import Unimported.Proofs.CommandLine
import Unimported.Proofs.FileTree.Spelling
import Unimported.Proofs.FileTree.Writing
import Unimported.Proofs.Scan
import Unimported.Run

/-!
# `Unimported.Proofs.Run`: how a run ends

A run can end in six ways (`Command.Ends`): its configuration file is broken, its format
has no such name, its report is printed for a reader or as JSON, its JSON is written to a
file, or this file cannot be written. `Command.ends_execute` says that there is no other
way, and with each way what is printed and which files there are afterwards. All else
follows by looking at the six. What the scan meets under its root, a file that is no text
or no file at all, has no part in it. The statements:

* `Command.effective_eq_override`: where no configuration is to be found, or only a broken
  one, every default holds under the options of the command.
* `Command.exitCode_congr`: only the configuration and the output file decide about the
  exit status.
* `run_outcome`: the exit status of a command line, what a run that fails leaves behind, and
  what a run that succeeds has done to the files.
-/

set_option autoImplicit false

namespace Unimported

open Unimported.Path

namespace Command

/-! ### The configuration of a command -/

/-- The configuration that the options of a command are put over: that of the file asked
for, or else that of the file under the root. -/
def base (c : Command) (w : Workspace) : Config :=
  match c.config? with
  | some p => (Config.load w p).toOption.getD {}
  | none => (Config.probe w c.root).1

/-- The configuration with the options of the command. -/
def effective (c : Command) (w : Workspace) : Config :=
  c.override (c.base w)

/-- Whether the configuration file that is asked for, if one is, can be read and parsed. -/
def Loads (c : Command) (w : Workspace) : Prop :=
  ∀ p, c.config? = some p → ∃ config, Config.load w p = .ok config

/-- Whether the format of the report is given, or has a name that there is. -/
def KnowsFormat (c : Command) (w : Workspace) : Prop :=
  c.format?.isSome ∨ (ReportFormat.ofName? (c.effective w).report.format).isSome

/-- Whether the report is JSON for a file that cannot be written. -/
def IsBarred (c : Command) (w : Workspace) : Prop :=
  c.reportFormat (c.effective w) = .ok .json ∧ ∃ p, c.output? = some p ∧ ¬w.Writable p

variable {c : Command} {w : Workspace}

/-- A command has a configuration if its configuration file can be loaded. -/
theorem configure_of_loads (h : c.Loads w) : ∃ log, c.configure w = .ok (c.effective w, log) := by
  unfold configure baseConfig effective base
  cases hconfig : c.config? with
  | none => exact ⟨(Config.probe w c.root).2, rfl⟩
  | some p =>
    obtain ⟨config, hload⟩ := h p hconfig
    simp only [hload]
    exact ⟨[], rfl⟩

/-- It has none if the file cannot be loaded. -/
theorem configure_of_not_loads (h : ¬c.Loads w) : ∃ e, c.configure w = .error e := by
  unfold configure baseConfig
  cases hconfig : c.config? with
  | none =>
    refine absurd (fun p hp => ?_) h
    rw [hconfig] at hp
    cases hp
  | some p =>
    simp only
    cases hload : Config.load w p with
    | error e => exact ⟨e, rfl⟩
    | ok config =>
      refine absurd (fun q hq => ?_) h
      rw [hconfig] at hq
      cases hq
      exact ⟨config, hload⟩

/-- A command has a format for its report exactly if it knows one. -/
theorem reportFormat_ok_iff : (∃ format, c.reportFormat (c.effective w) = .ok format) ↔
    c.KnowsFormat w := by
  unfold reportFormat KnowsFormat
  cases c.format? with
  | some format => simp
  | none => cases ReportFormat.ofName? (c.effective w).report.format <;> simp

/-! ### The ways in which a run ends -/

/-- The outcomes that a run of a command can have. -/
inductive Ends (c : Command) (w : Workspace) (colour : Bool) : Outcome → Prop where
  /-- The configuration file gives no configuration. -/
  | unconfigured (log : List LogLine) (e : RunError) (hloads : ¬c.Loads w) :
      Ends c w colour (c.failed w log e)
  /-- The configured format has no such name. -/
  | unformatted (log : List LogLine) (e : RunError) (hloads : c.Loads w)
      (hformat : ¬c.KnowsFormat w) : Ends c w colour (c.failed w log e)
  /-- The report for a reader is printed, whatever the output file. -/
  | shown (log : List LogLine) (hloads : c.Loads w)
      (hformat : c.reportFormat (c.effective w) = .ok .terminal) :
      Ends c w colour (c.succeeded w log
        ((terminalReport (c.effective w) colour).render (scan w (c.effective w) c.root)))
  /-- The JSON report is printed. -/
  | printed (log : List LogLine) (hloads : c.Loads w)
      (hformat : c.reportFormat (c.effective w) = .ok .json) (houtput : c.output? = none) :
      Ends c w colour (c.succeeded w log
        ((scan w (c.effective w) c.root).renderJson ++ ['\n']))
  /-- The JSON report is written to the output file. -/
  | written (log : List LogLine) (p : Path) (after : Workspace)
      (hloads : c.Loads w) (hformat : c.reportFormat (c.effective w) = .ok .json)
      (houtput : c.output? = some p)
      (hwrite : w.write p (Utf8.encode (scan w (c.effective w) c.root).renderJson)
        = .ok after) : Ends c w colour (c.succeeded after log
          ("Report written to: " ++ p.display ++ "\n").toList)
  /-- The output file cannot be written. -/
  | barred (log : List LogLine) (e : RunError) (hloads : c.Loads w) (hbarred : c.IsBarred w) :
      Ends c w colour (c.failed w log e)

/-- Every run ends in one of these ways. -/
theorem ends_execute (c : Command) (w : Workspace) (colour : Bool) :
    c.Ends w colour (c.execute w colour) := by
  unfold execute
  by_cases hloads : c.Loads w
  · obtain ⟨configLog, hconfigure⟩ := configure_of_loads hloads
    rw [hconfigure]
    simp only
    -- The format is looked up before the report is made, whatever the scan meets.
    cases hformat : c.reportFormat (c.effective w) with
    | error e =>
      refine .unformatted _ _ hloads fun hknows => ?_
      obtain ⟨format, hok⟩ := reportFormat_ok_iff.mpr hknows
      rw [hformat] at hok
      cases hok
    | ok format =>
      cases format with
      | terminal => exact .shown _ hloads hformat
      | json =>
        cases houtput : c.output? with
        | none =>
          simp only [deliver, houtput]
          exact .printed _ hloads hformat houtput
        | some p =>
          have hreport : (survey w (c.effective w) c.root).report (c.effective w)
              = scan w (c.effective w) c.root := rfl
          simp only [deliver, houtput, hreport]
          cases hwrite : w.write p (Utf8.encode (scan w (c.effective w) c.root).renderJson) with
          | ok after => exact .written _ p after hloads hformat houtput hwrite
          | error e =>
            refine .barred _ _ hloads ⟨hformat, p, houtput, fun hwritable => ?_⟩
            obtain ⟨after, hok⟩ := Workspace.exists_write_iff.mpr hwritable
            rw [hwrite] at hok
            cases hok
  · obtain ⟨e, hconfigure⟩ := configure_of_not_loads hloads
    rw [hconfigure]
    exact .unconfigured _ _ hloads

/-! ### What follows for every run -/

variable {colour : Bool}

/-- A run succeeds exactly if the configuration loads, the format is known, and nothing
bars the way to the output file. -/
theorem exitCode_eq_zero_iff :
    (c.execute w colour).exitCode = 0 ↔ c.Loads w ∧ c.KnowsFormat w ∧ ¬c.IsBarred w := by
  have hends := ends_execute c w colour
  generalize c.execute w colour = outcome at hends
  cases hends with
  | unconfigured log e hloads => simp [failed, hloads]
  | unformatted log e hloads hformat => simp [failed, hformat]
  | shown log hloads hformat =>
    have hknows : c.KnowsFormat w := reportFormat_ok_iff.mp ⟨_, hformat⟩
    simp [succeeded, hloads, hknows, IsBarred, hformat]
  | printed log hloads hformat houtput =>
    have hknows : c.KnowsFormat w := reportFormat_ok_iff.mp ⟨_, hformat⟩
    simp [succeeded, hloads, hknows, IsBarred, houtput]
  | written log p after hloads hformat houtput hwrite =>
    have hknows : c.KnowsFormat w := reportFormat_ok_iff.mp ⟨_, hformat⟩
    have hwritable : w.Writable p := Workspace.exists_write_iff.mp ⟨after, hwrite⟩
    simp [succeeded, hloads, hknows, IsBarred, houtput, hwritable]
  | barred log e hloads hbarred => simp [failed, hbarred]

/-- A run that does not succeed has the exit status 1, prints nothing and leaves the files
as they are. -/
theorem of_exitCode_ne_zero (h : (c.execute w colour).exitCode ≠ 0) :
    (c.execute w colour).exitCode = 1 ∧ (c.execute w colour).stdout = [] ∧
      (c.execute w colour).workspace = w := by
  have hends := ends_execute c w colour
  generalize c.execute w colour = outcome at hends h
  cases hends with
  | unconfigured log e hloads => exact ⟨rfl, rfl, rfl⟩
  | unformatted log e hloads hformat => exact ⟨rfl, rfl, rfl⟩
  | barred log e hloads hbarred => exact ⟨rfl, rfl, rfl⟩
  | shown log hloads hformat => exact absurd rfl h
  | printed log hloads hformat houtput => exact absurd rfl h
  | written log p after hloads hformat houtput hwrite => exact absurd rfl h

/-- The files change only where a JSON report is written, and then only the output file. -/
theorem workspace_execute (c : Command) (w : Workspace) (colour : Bool) :
    (c.execute w colour).workspace = w ∨
      ∃ p, c.output? = some p ∧ c.reportFormat (c.effective w) = .ok .json ∧
        (c.execute w colour).exitCode = 0 := by
  have hends := ends_execute c w colour
  generalize c.execute w colour = outcome at hends
  cases hends with
  | unconfigured log e hloads => exact Or.inl rfl
  | unformatted log e hloads hformat => exact Or.inl rfl
  | shown log hloads hformat => exact Or.inl rfl
  | printed log hloads hformat houtput => exact Or.inl rfl
  | barred log e hloads hbarred => exact Or.inl rfl
  | written log p after hloads hformat houtput hwrite =>
    exact Or.inr ⟨p, houtput, hformat, rfl⟩

/-- A JSON report that is written is the text of the scan. -/
theorem wrote_execute {p : Path} (hzero : (c.execute w colour).exitCode = 0)
    (hjson : c.reportFormat (c.effective w) = .ok .json) (hp : c.output? = some p) :
    w.Wrote (c.execute w colour).workspace p
      (Utf8.encode (scan w (c.effective w) c.root).renderJson) := by
  have hends := ends_execute c w colour
  generalize c.execute w colour = outcome at hends hzero
  cases hends with
  | unconfigured log e hloads => cases hzero
  | unformatted log e hloads hformat => cases hzero
  | barred log e hloads hbarred => cases hzero
  | shown log hloads hformat =>
    rw [hjson] at hformat
    cases hformat
  | printed log hloads hformat houtput =>
    rw [hp] at houtput
    cases houtput
  | written log q after hloads hformat houtput hwrite =>
    rw [hp] at houtput
    cases houtput
    exact Workspace.wrote_of_write hwrite

/-- Without an output file a JSON report is printed, with a line break behind it. -/
theorem stdout_execute (hloads : c.Loads w)
    (hjson : c.reportFormat (c.effective w) = .ok .json) (hnone : c.output? = none) :
    (c.execute w colour).stdout = (scan w (c.effective w) c.root).renderJson ++ ['\n'] := by
  have hends := ends_execute c w colour
  generalize c.execute w colour = outcome at hends
  cases hends with
  | unconfigured log e hnot => exact absurd hloads hnot
  | unformatted log e _ hformat => exact absurd (reportFormat_ok_iff.mp ⟨_, hjson⟩) hformat
  | barred log e _ hbarred =>
    obtain ⟨-, p, hp, -⟩ := hbarred
    rw [hnone] at hp
    cases hp
  | shown log _ hformat =>
    rw [hjson] at hformat
    cases hformat
  | printed log _ hformat houtput => rfl
  | written log p after _ hformat houtput hwrite =>
    rw [hnone] at houtput
    cases houtput

/-- The report for a reader is the same with an output file and without one. -/
theorem execute_terminal (hterminal : c.reportFormat (c.effective w) = .ok .terminal) :
    c.execute w colour = ({ c with output? := none } : Command).execute w colour := by
  have hconfigure : ({ c with output? := none } : Command).configure w = c.configure w := rfl
  have hformat : ∀ config, ({ c with output? := none } : Command).reportFormat config
      = c.reportFormat config := fun config => rfl
  unfold execute
  rw [hconfigure]
  by_cases hloads : c.Loads w
  · obtain ⟨log, hlog⟩ := configure_of_loads hloads
    rw [hlog]
    simp only [hformat, hterminal]
    rfl
  · obtain ⟨e, he⟩ := configure_of_not_loads hloads
    rw [he]
    rfl

/-! ### What has no part in the exit status -/

/-- A run in other files has the same exit status, as long as the configuration is the same
and the output file can be written in both or in neither. -/
theorem exitCode_congr {w' : Workspace} (hloads : c.Loads w' ↔ c.Loads w)
    (heffective : c.effective w' = c.effective w)
    (houtput : ∀ p, c.output? = some p → (w'.Writable p ↔ w.Writable p)) :
    (c.execute w' colour).exitCode = (c.execute w colour).exitCode := by
  have hknows : c.KnowsFormat w' ↔ c.KnowsFormat w := by
    rw [KnowsFormat, KnowsFormat, heffective]
  have hbarred : c.IsBarred w' ↔ c.IsBarred w := by
    rw [IsBarred, IsBarred, heffective]
    exact and_congr_right fun _ =>
      exists_congr fun p => and_congr_right fun hp => not_congr (houtput p hp)
  have hzero : (c.execute w' colour).exitCode = 0 ↔ (c.execute w colour).exitCode = 0 := by
    rw [exitCode_eq_zero_iff, exitCode_eq_zero_iff, hloads, hknows, hbarred]
  -- There are two statuses only, so it is enough that both runs succeed or neither does.
  by_cases h : (c.execute w colour).exitCode = 0
  · rw [h, hzero.mpr h]
  · rw [(of_exitCode_ne_zero h).1, (of_exitCode_ne_zero (hzero.not.mpr h)).1]

/-- Under a root that is no directory there is no configuration file. -/
theorem fileUnder?_of_not_isDir {root : Path} (hroot : root ≠ Path.empty)
    (hdir : w.isDir root = false) : Config.fileUnder? w root = none := by
  have hnames : ∀ name ∈ Config.fileNames, (Path.ofString name).isAbsolute = false := by
    decide +kernel
  rw [Config.fileUnder?, List.find?_eq_none]
  intro p hp hfile
  obtain ⟨name, hname, rfl⟩ := List.mem_map.mp hp
  unfold Workspace.isFile at hfile
  split at hfile
  · rename_i loc contents hstat
    rw [Workspace.isDir_of_stat_join hroot (hnames name hname) hstat] at hdir
    cases hdir
  · cases hfile

/-- Where no configuration is to be found, or only a broken one, every default holds under
the options of the command. -/
theorem effective_eq_override (hconfig : c.config? = none) (hroot : c.root ≠ Path.empty)
    (h : w.isDir c.root = false ∨ Config.fileUnder? w c.root = none ∨
      ∃ p e, Config.fileUnder? w c.root = some p ∧ Config.load w p = .error e) :
    c.effective w = c.override {} := by
  have hnone : Config.fileUnder? w c.root = none → c.effective w = c.override {} := by
    intro hunder
    unfold effective base Config.probe
    rw [hconfig, hunder]
  rcases h with hdir | hunder | ⟨p, e, hunder, hload⟩
  · exact hnone (fileUnder?_of_not_isDir hroot hdir)
  · exact hnone hunder
  · unfold effective base Config.probe
    rw [hconfig, hunder]
    simp only [hload]

end Command

/-! ### Command lines -/

/-- How the run of a command line ends.

1. It succeeds exactly if the configuration file that is asked for can be read and parsed,
   the format of the report is given or has a name that there is, and it is not the case
   that JSON is to go into a file that cannot be written.
2. Otherwise its exit status is 1, and it prints nothing.
3. The files it meets have no part in this. Whatever else is under the root, with the same
   configuration and an output file that can be written in both cases or in neither, as
   when only contents differ, the exit status is the same. Under a missing root, and where
   the configuration file under the root is broken, the configuration is the default one.
4. If it succeeds with JSON and an output file, the path of this names the text of the
   report afterwards, which would be printed otherwise, and nothing else has changed. In
   every other case the files are as before. A report for a reader is always printed. -/
theorem run_outcome (w : Workspace) (arguments : List Argument) (colour : Bool) (c : Command)
    (hparse : CommandLine.parse arguments = .ok c) :
    let outcome := run w arguments colour
    let config := c.effective w
    let report := scan w config c.root
    let unwritten : Command := { c with output? := none }
    (outcome.exitCode = 0 ↔
      (∀ p, c.config? = some p → ∃ loaded, Config.load w p = .ok loaded) ∧
      (c.format?.isSome ∨ (ReportFormat.ofName? config.report.format).isSome) ∧
      ¬(c.reportFormat config = .ok .json ∧ ∃ p, c.output? = some p ∧ ¬w.Writable p)) ∧
    (outcome.exitCode ≠ 0 → outcome.exitCode = 1 ∧ outcome.stdout = []) ∧
    ((∀ w', (∀ p, c.config? = some p → Config.load w' p = Config.load w p) →
        c.effective w' = config →
        (w.SameOutline w' ∨ ∀ p, c.output? = some p → (w'.Writable p ↔ w.Writable p)) →
        (run w' arguments colour).exitCode = outcome.exitCode) ∧
      (c.config? = none → (w.isDir c.root = false ∨ Config.fileUnder? w c.root = none ∨
          ∃ p e, Config.fileUnder? w c.root = some p ∧ Config.load w p = .error e) →
        config = c.override {})) ∧
    (∀ p, outcome.exitCode = 0 → c.reportFormat config = .ok .json → c.output? = some p →
      w.Wrote outcome.workspace p (Utf8.encode report.renderJson) ∧
        (unwritten.execute w colour).stdout = report.renderJson ++ ['\n']) ∧
    (¬(outcome.exitCode = 0 ∧ c.reportFormat config = .ok .json ∧ c.output?.isSome) →
      outcome.workspace = w) ∧
    (c.reportFormat config = .ok .terminal → outcome = unwritten.execute w colour) := by
  intro outcome config report unwritten
  -- A command line that is parsed is its command, in every workspace.
  have hrun : ∀ v, run v arguments colour = c.execute v colour := by
    intro v
    rw [run, hparse]
  have houtcome : outcome = c.execute w colour := hrun w
  rw [houtcome]
  refine ⟨Command.exitCode_eq_zero_iff, ?_, ⟨?_, ?_⟩, ?_, ?_, Command.execute_terminal⟩
  · intro hfailed
    obtain ⟨hone, hstdout, -⟩ := Command.of_exitCode_ne_zero hfailed
    exact ⟨hone, hstdout⟩
  · intro w' hload heffective houtput
    have hloads : c.Loads w' ↔ c.Loads w := by
      refine forall_congr' fun p => imp_congr_right fun hp => ?_
      rw [hload p hp]
    rw [hrun]
    refine Command.exitCode_congr hloads heffective ?_
    rcases houtput with houtline | houtput
    · exact fun p _ => Workspace.writable_of_sameOutline houtline
    · exact houtput
  · intro hconfig hdefault
    exact Command.effective_eq_override hconfig (CommandLine.root_ne_empty_of_parse hparse) hdefault
  · intro p hzero hjson hp
    have hloads : unwritten.Loads w := (Command.exitCode_eq_zero_iff.mp hzero).1
    exact ⟨Command.wrote_execute hzero hjson hp, Command.stdout_execute hloads hjson rfl⟩
  · intro hnot
    rcases Command.workspace_execute c w colour with hsame | hwritten
    · exact hsame
    · obtain ⟨p, hp, hjson, hzero⟩ := hwritten
      exact absurd ⟨hzero, hjson, Option.isSome_iff_exists.mpr ⟨p, hp⟩⟩ hnot

/-- A page with a file that nothing imports, and with a configuration file that is
broken. -/
def brokenConfigApp : Workspace :=
  Workspace.ofFiles [("app/main.ts", "import './part'"), ("app/part.ts", ""),
    ("app/.deadfiles.toml", "vendor_dir = ")]

/-- A command line, given as texts. -/
def argumentsOf (texts : List String) : List Argument :=
  texts.map fun text => Utf8.encode text.toList

/-- The command for a JSON report on the page in an output file. -/
def reportTo (output : Path) : Command :=
  { path? := some (Path.ofString "app"), format? := some .json, output? := some output }

/-- The report on the page is written to a new file, in spite of the broken configuration,
and it is not written where there is no directory. -/
theorem run_outcome_brokenConfigApp :
    let arguments := fun output => argumentsOf ["app", "-f", "json", "-o", output]
    let made := run brokenConfigApp (arguments "out.json") false
    let failed := run brokenConfigApp (arguments "missing/out.json") false
    (CommandLine.parse (arguments "out.json") = .ok (reportTo (Path.ofString "out.json")) ∧
      CommandLine.parse (arguments "missing/out.json")
        = .ok (reportTo (Path.ofString "missing/out.json"))) ∧
    made.exitCode = 0 ∧
    brokenConfigApp.Wrote made.workspace (Path.ofString "out.json") (Utf8.encode
      (scan brokenConfigApp ((reportTo (Path.ofString "out.json")).override {})
        (Path.ofString "app")).renderJson) ∧
    failed.exitCode = 1 ∧ failed.stdout = [] ∧ failed.workspace = brokenConfigApp := by
  intro arguments made failed
  have hmade : CommandLine.parse (arguments "out.json")
      = .ok (reportTo (Path.ofString "out.json")) := by decide +kernel
  have hfailed : CommandLine.parse (arguments "missing/out.json")
      = .ok (reportTo (Path.ofString "missing/out.json")) := by decide +kernel
  refine ⟨⟨hmade, hfailed⟩, ?_⟩
  obtain ⟨hzero, -, ⟨-, hdefault⟩, hwritten, -⟩ :=
    run_outcome brokenConfigApp (arguments "out.json") false _ hmade
  obtain ⟨hzero', hone, -, -, hsame, -⟩ :=
    run_outcome brokenConfigApp (arguments "missing/out.json") false _ hfailed
  have hconfig : (reportTo (Path.ofString "out.json")).effective brokenConfigApp
      = (reportTo (Path.ofString "out.json")).override {} := by
    -- The broken file is the one that counts, so the default configuration holds.
    refine hdefault rfl (Or.inr (Or.inr ⟨Path.ofString "app/.deadfiles.toml", .notToml, ?_, ?_⟩))
    · decide +kernel
    · decide +kernel
  have hfree : brokenConfigApp.Writable (Path.ofString "out.json") := by
    refine Or.inr ⟨[], ⟨Utf8.encode "out.json".toList, ?_⟩, ?_⟩
    · decide +kernel
    · decide +kernel
  have hnowhere : brokenConfigApp.locate (Path.ofString "missing/out.json") = .error .notFound := by
    decide +kernel
  have hbarred : ¬brokenConfigApp.Writable (Path.ofString "missing/out.json") := by
    rintro (⟨loc, contents, h⟩ | ⟨dir, name, h⟩)
    · rw [hnowhere] at h
      cases h
    · rw [hnowhere] at h
      cases h
  have hsucceeds : made.exitCode = 0 := by
    refine hzero.mpr ⟨nofun, Or.inl rfl, ?_⟩
    rintro ⟨-, p, hp, hnot⟩
    cases hp
    exact hnot hfree
  have hfails : failed.exitCode ≠ 0 := by
    intro h
    exact (hzero'.mp h).2.2 ⟨rfl, _, rfl, hbarred⟩
  have hwrote := (hwritten _ hsucceeds rfl rfl).1
  rw [hconfig] at hwrote
  exact ⟨hsucceeds, hwrote, (hone hfails).1, (hone hfails).2, hsame fun h => hfails h.1⟩

end Unimported
