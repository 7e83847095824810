import Unimported.Proofs.CommandLine
import Unimported.Proofs.Text.Utf8

/-!
# `Unimported.Proofs.ConfigOption`: the options for the configuration

Five options of a command line are about the configuration. Each of them sets one field of the
command, and no argument behind it looks at this field, but for the same option once more: a
second value is put behind the first one where the field is a list, and refused where it is
not. So an option that stands in front of a command line can as well be put into the command
that the line without it asks for. The statements:

* `Commutes.bind`: an option can be moved over two steps if it can be moved over each of them.
* `commutes_set`, `commutes_turnOn`, `commutes_setPath`: it can be moved over a step of every
  kind, and so over all arguments (`commutes_readArguments`).
* `parse_argument`: what an option in front of a command line does.
* `parse_extensions`: the same for several extensions.
-/

set_option autoImplicit false

namespace Unimported.CommandLine

/-- An option for the configuration, with its value. -/
inductive ConfigOption where
  /-- `--vendor-dir` -/
  | vendorDir (text : String)
  /-- `--extension` -/
  | extension (text : String)
  /-- `--entry-point` -/
  | entryPoint (name : String)
  /-- `--format` -/
  | format (f : ReportFormat)
  /-- `--show-unresolved` -/
  | showUnresolved

/-- The argument that gives an option and its value. -/
def longOption (name value : String) : Argument :=
  dash :: dash :: (Utf8.encode name.toList ++ equals :: Utf8.encode value.toList)

namespace ConfigOption

/-- The option as an argument. -/
def argument : ConfigOption → Argument
  | vendorDir text => longOption "vendor-dir" text
  | extension text => longOption "extension" text
  | entryPoint name => longOption "entry-point" name
  | format f => longOption "format" f.name
  | showUnresolved => dash :: dash :: Utf8.encode "show-unresolved".toList

/-- The command with the option before all that it has. An option that may be given once is
refused where it is given already. -/
def putInto? (o : ConfigOption) (c : Command) : Option Command :=
  match o with
  | vendorDir text => if c.vendorDir?.isSome then none else some { c with vendorDir? := some text }
  | extension text => some { c with extensions := text :: c.extensions }
  | entryPoint name => some { c with entryPoints := name :: c.entryPoints }
  | format f => if c.format?.isSome then none else some { c with format? := some f }
  | showUnresolved => if c.showUnresolved then none else some { c with showUnresolved := true }

end ConfigOption

/-! ### Moving an option over a step -/

/-- Whether it makes no difference if an option comes before a step or after it. -/
def Commutes (o : ConfigOption) (step : Command → Option Command) : Prop :=
  ∀ c, (step c).bind o.putInto? = (o.putInto? c).bind step

variable {o : ConfigOption}

/-- An option can be moved over a step that does nothing. -/
theorem Commutes.stay : Commutes o some := by
  intro c
  show o.putInto? c = _
  cases o.putInto? c <;> rfl

/-- An option can be moved over a step that fails, since nothing is left of it either way. -/
theorem Commutes.stop : Commutes o fun _ => none := by
  intro c
  cases o.putInto? c <;> rfl

/-- Whether an option can be moved over a step is told by what the step does. -/
theorem Commutes.congr {step step' : Command → Option Command} (h : ∀ c, step c = step' c)
    (hstep : Commutes o step') : Commutes o step := by
  intro c
  rw [h c, funext h]
  exact hstep c

/-- An option can be moved over two steps if it can be moved over each of them. -/
theorem Commutes.bind {step next : Command → Option Command} (hstep : Commutes o step)
    (hnext : Commutes o next) : Commutes o fun c => (step c).bind next := by
  intro c
  calc ((step c).bind next).bind o.putInto?
      = (step c).bind fun d => (next d).bind o.putInto? := Option.bind_assoc ..
    _ = (step c).bind fun d => (o.putInto? d).bind next := by simp only [hnext _]
    _ = ((step c).bind o.putInto?).bind next := (Option.bind_assoc ..).symm
    _ = ((o.putInto? c).bind step).bind next := by rw [hstep c]
    _ = (o.putInto? c).bind fun d => (step d).bind next := Option.bind_assoc ..

/-- An option can be moved over another option with its value, be it the same one. -/
theorem commutes_set (value : Argument) (s : Setting) :
    Commutes o fun c => (set c value s).toOption := by
  rintro ⟨path?, config?, vendorDir?, extensions, entryPoints, format?, output?, shown, _, _⟩
  -- Each field that can be given once is given or not, and both orders are computed.
  cases s with
  | config =>
    simp only [set]
    generalize pathValue value = read
    cases o <;> cases vendorDir? <;> cases format? <;> cases shown <;> cases config? <;>
      cases read <;> rfl
  | vendorDir | extension | entryPoint =>
    simp only [set]
    generalize textValue value = read
    cases o <;> cases vendorDir? <;> cases format? <;> cases shown <;> cases read <;> rfl
  | format =>
    simp only [set]
    generalize formatValue value = read
    cases o <;> cases vendorDir? <;> cases format? <;> cases shown <;> cases read <;> rfl
  | output =>
    simp only [set]
    generalize pathValue value = read
    cases o <;> cases vendorDir? <;> cases format? <;> cases shown <;> cases output? <;>
      cases read <;> rfl

/-- An option can be moved over an option without a value. -/
theorem commutes_turnOn (s : Switch) : Commutes o fun c => (turnOn c s).toOption := by
  rintro ⟨_, _, vendorDir?, _, _, format?, _, shown, verbose, quiet⟩
  cases s <;> cases o <;> cases vendorDir? <;> cases format? <;> cases shown <;>
    cases verbose <;> cases quiet <;> rfl

/-- An option can be moved over an argument that is the root. -/
theorem commutes_setPath (value : Argument) : Commutes o fun c => (setPath c value).toOption := by
  rintro ⟨path?, _, vendorDir?, _, _, format?, _, shown, _, _⟩
  simp only [setPath]
  generalize pathValue value = read
  cases o <;> cases vendorDir? <;> cases format? <;> cases shown <;> cases path? <;>
    cases read <;> rfl

/-! ### Moving an option over arguments -/

/-- Goes on after the letters of an argument, with a command or with one whose last option
still has no value. -/
def Cluster.resume (whole : Command → Option Command)
    (open? : Setting → Command → Option Command) : Cluster → Option Command
  | .done c => whole c
  | .pending c s => open? s c

section

variable {whole : Command → Option Command} {open? : Setting → Command → Option Command}

/-- Behind letters that are done, reading goes on with the next argument. -/
theorem resume_map_done (read : Except Stop Command) :
    (read.map .done).toOption.bind (Cluster.resume whole open?) = read.toOption.bind whole := by
  cases read <;> rfl

/-- An option can be moved over the letters of an argument if it can be moved over what comes
behind them. -/
theorem commutes_readLetters (hwhole : Commutes o whole) (hopen : ∀ s, Commutes o (open? s))
    (letters : List UInt8) :
    Commutes o fun c => (readLetters c letters).toOption.bind (Cluster.resume whole open?) := by
  induction letters with
  | nil => exact hwhole
  | cons letter rest ih =>
    unfold readLetters
    split
    · exact Commutes.stop
    · rename_i s _
      refine Commutes.congr (fun c => ?_) ((commutes_turnOn s).bind ih)
      cases turnOn c s <;> rfl
    · split
      · exact hopen _
      · simp only [resume_map_done]
        exact (commutes_set _ _).bind hwhole

/-- An option can be moved over an argument with options if it can be moved over what comes behind
it. -/
theorem commutes_readOption (hwhole : Commutes o whole) (hopen : ∀ s, Commutes o (open? s))
    (a : Argument) :
    Commutes o fun c => (readOption c a).toOption.bind (Cluster.resume whole open?) := by
  unfold readOption
  split
  · split
    · simp only
      split
      · simp only [resume_map_done]
        exact (commutes_turnOn _).bind hwhole
      · exact hopen _
      · simp only [resume_map_done]
        exact (commutes_set _ _).bind hwhole
      · exact Commutes.stop
    · exact commutes_readLetters hwhole hopen _
  · exact Commutes.stop

end

/-- Reads arguments of which the first one has to be the value of an option. -/
def readValue (onlyPaths : Bool) (arguments : List Argument) (s : Setting) (c : Command) :
    Option Command :=
  match arguments with
  | [] => none
  | value :: rest =>
    if isOptionLike value then none
    else (set c value s).toOption.bind fun d => (readArguments onlyPaths d rest).toOption

/-- An option can be moved over all that stands behind it. -/
theorem commutes_readArguments (onlyPaths : Bool) (arguments : List Argument) :
    Commutes o fun c => (readArguments onlyPaths c arguments).toOption := by
  match arguments with
  | [] => exact Commutes.stay
  | a :: rest =>
    -- An option that waits for its value takes the next argument.
    have hvalue : ∀ s, Commutes o (readValue onlyPaths rest s) := by
      intro s
      unfold readValue
      split
      · exact Commutes.stop
      · rename_i value more
        split
        · exact Commutes.stop
        · exact (commutes_set value s).bind (commutes_readArguments onlyPaths more)
    unfold readArguments
    -- The argument ends the options, is a group of them, or is a path.
    split
    · exact commutes_readArguments true rest
    · split
      · refine Commutes.congr (fun c => ?_)
          (commutes_readOption (commutes_readArguments onlyPaths rest) hvalue a)
        cases readOption c a with
        | error stop => rfl
        | ok k =>
          cases k with
          | done d => rfl
          | pending d s =>
            show _ = readValue onlyPaths rest s d
            unfold readValue
            cases rest with
            | nil => rfl
            | cons value more =>
              simp only
              split
              · rfl
              · cases set d value s <;> rfl
      · refine Commutes.congr (fun c => ?_)
          ((commutes_setPath a).bind (commutes_readArguments onlyPaths rest))
        cases setPath c a <;> rfl

/-! ### An option in front of a command line -/

/-- An argument with a long name and a value sets the option of this name. -/
theorem readOption_longOption {name : String} {s : Setting}
    (hname : ofLongName? (Utf8.encode name.toList) = some (.setting s) ∧
      equals ∉ Utf8.encode name.toList) (c : Command) (value : String) :
    readOption c (longOption name value) = (set c (Utf8.encode value.toList) s).map .done := by
  obtain ⟨hname, hequals⟩ := hname
  have htake : (Utf8.encode name.toList ++ equals :: Utf8.encode value.toList).takeWhile
      (· ≠ equals) = Utf8.encode name.toList := by
    rw [List.takeWhile_append_of_pos]
    · simp
    · intro b hb
      have hne : b ≠ equals := fun heq => hequals (heq ▸ hb)
      simpa using hne
  simp only [readOption, longOption, if_pos, htake, hname, List.drop_left]

/-- A text that is written as bytes is read as this text. -/
theorem textValue_encode (text : String) : textValue (Utf8.encode text.toList) = .ok text := by
  simp [textValue, Utf8.decode_encode]

/-- The name of a format is read as this format. -/
theorem formatValue_encode (f : ReportFormat) :
    formatValue (Utf8.encode f.name.toList) = .ok f := by
  cases f <;> decide +kernel

/-- An option is read from its argument. -/
theorem readOption_argument (o : ConfigOption) :
    ∃ c, o.putInto? {} = some c ∧ readOption {} o.argument = .ok (.done c) := by
  have hname : ∀ row ∈ [("vendor-dir", Setting.vendorDir), ("extension", .extension),
        ("entry-point", .entryPoint), ("format", .format)],
      ofLongName? (Utf8.encode row.1.toList) = some (.setting row.2) ∧
        equals ∉ Utf8.encode row.1.toList := by decide +kernel
  -- All options but the last have a long name and a value.
  cases o with
  | vendorDir text =>
    refine ⟨_, rfl, ?_⟩
    rw [ConfigOption.argument, readOption_longOption (hname (_, .vendorDir) (by simp)), set,
      textValue_encode]
    rfl
  | extension text =>
    refine ⟨_, rfl, ?_⟩
    rw [ConfigOption.argument, readOption_longOption (hname (_, .extension) (by simp)), set,
      textValue_encode]
    rfl
  | entryPoint name =>
    refine ⟨_, rfl, ?_⟩
    rw [ConfigOption.argument, readOption_longOption (hname (_, .entryPoint) (by simp)), set,
      textValue_encode]
    rfl
  | format f =>
    refine ⟨_, rfl, ?_⟩
    rw [ConfigOption.argument, readOption_longOption (hname (_, .format) (by simp)), set,
      formatValue_encode]
    rfl
  | showUnresolved => exact ⟨_, rfl, rfl⟩

/-- What an option in front of a command line does: the option is put before all that the line
without it asks for, and refused where it may be given once and the line has it as well. -/
theorem parse_argument (o : ConfigOption) (arguments : List Argument) :
    (parse (o.argument :: arguments)).toOption = (parse arguments).toOption.bind o.putInto? := by
  obtain ⟨c, hput, hread⟩ := readOption_argument o
  have hdashes : ∃ b rest, o.argument = dash :: dash :: b :: rest := by
    cases o <;> exact ⟨_, _, rfl⟩
  obtain ⟨b, rest, hargument⟩ := hdashes
  have hparse : parse (o.argument :: arguments) = readArguments false c arguments := by
    rw [parse, readArguments, hread]
    simp [hargument, isOptionLike]
  rw [hparse, parse, commutes_readArguments false arguments {}, hput]
  rfl

/-- The arguments that give extensions, one after the other. -/
def extensionArguments (extensions : List String) : List Argument :=
  extensions.map fun e => (ConfigOption.extension e).argument

/-- Extensions in front of a command line are put before those that the line without them asks
for. -/
theorem parse_extensions (extensions : List String) (arguments : List Argument) :
    (parse (extensionArguments extensions ++ arguments)).toOption
      = (parse arguments).toOption.map fun c =>
          { c with extensions := extensions ++ c.extensions } := by
  induction extensions with
  | nil => simp [extensionArguments]
  | cons e rest ih =>
    rw [extensionArguments, List.map_cons, List.cons_append, parse_argument,
      ← extensionArguments, ih]
    cases (parse arguments).toOption <;> rfl

end Unimported.CommandLine
