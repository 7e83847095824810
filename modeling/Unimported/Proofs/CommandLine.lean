import Unimported.CommandLine

/-!
# `Unimported.Proofs.CommandLine`: what a command line can ask for

A command is made from left to right, and only an argument that is no option sets the path
of the scan. It has to be a path of at least one byte, so an empty root is never scanned.
The statements:

* `path?_set`, `path?_turnOn`, `path?_readOption`: no option touches the path.
* `root_ne_empty_of_parse`: no command line gives an empty root.
-/

set_option autoImplicit false

namespace Unimported.CommandLine

/-- The command that is left after the letters of an argument. -/
def Cluster.command : Cluster → Command
  | .done c => c
  | .pending c _ => c

/-- What comes out of a step that succeeds was made of what went in. -/
theorem exists_of_map_eq_ok {ε α β : Type} {f : α → β} {x : Except ε α} {b : β}
    (h : x.map f = .ok b) : ∃ a, x = .ok a ∧ f a = b := by
  cases x with
  | error e => cases h
  | ok a => exact ⟨a, rfl, Except.ok.inj h⟩

/-! ### Options -/

/-- The value of an option leaves the root alone. -/
theorem path?_set {c c' : Command} {value : Argument} {s : Setting}
    (h : set c value s = .ok c') : c'.path? = c.path? := by
  cases s with
  | config => obtain ⟨v, -, rfl⟩ := exists_of_map_eq_ok h; rfl
  | vendorDir => obtain ⟨v, -, rfl⟩ := exists_of_map_eq_ok h; rfl
  | extension => obtain ⟨v, -, rfl⟩ := exists_of_map_eq_ok h; rfl
  | entryPoint => obtain ⟨v, -, rfl⟩ := exists_of_map_eq_ok h; rfl
  | format => obtain ⟨v, -, rfl⟩ := exists_of_map_eq_ok h; rfl
  | output => obtain ⟨v, -, rfl⟩ := exists_of_map_eq_ok h; rfl

/-- An option without a value leaves the root alone. -/
theorem path?_turnOn {c c' : Command} {s : Switch} (h : turnOn c s = .ok c') :
    c'.path? = c.path? := by
  cases s with
  | showUnresolved => obtain ⟨v, -, rfl⟩ := exists_of_map_eq_ok h; rfl
  | verbose => obtain ⟨v, -, rfl⟩ := exists_of_map_eq_ok h; rfl
  | quiet => obtain ⟨v, -, rfl⟩ := exists_of_map_eq_ok h; rfl
  | help => cases h
  | version => cases h

/-- The letters of an argument leave the root alone. -/
theorem path?_readLetters {letters : List UInt8} {c : Command} {k : Cluster}
    (h : readLetters c letters = .ok k) : k.command.path? = c.path? := by
  induction letters generalizing c with
  | nil =>
    cases h
    rfl
  | cons letter rest ih =>
    rw [readLetters] at h
    split at h
    · cases h
    · split at h
      · rename_i hon
        exact (ih h).trans (path?_turnOn hon)
      · cases h
    · split at h
      · cases h
        rfl
      · obtain ⟨c', hset, rfl⟩ := exists_of_map_eq_ok h
        exact path?_set hset

/-- No option touches the path. -/
theorem path?_readOption {c : Command} {a : Argument} {k : Cluster}
    (h : readOption c a = .ok k) : k.command.path? = c.path? := by
  unfold readOption at h
  split at h
  · split at h
    · simp only at h
      split at h
      · obtain ⟨c', hon, rfl⟩ := exists_of_map_eq_ok h
        exact path?_turnOn hon
      · cases h
        rfl
      · obtain ⟨c', hset, rfl⟩ := exists_of_map_eq_ok h
        exact path?_set hset
      · cases h
    · exact path?_readLetters h
  · cases h

/-! ### Arguments -/

/-- A path that is an argument has a byte. -/
theorem path?_setPath {c c' : Command} {value : Argument} (h : setPath c value = .ok c') :
    c'.path? ≠ some Path.empty := by
  obtain ⟨p, honce, rfl⟩ := exists_of_map_eq_ok h
  unfold once at honce
  split at honce
  · cases honce
  · obtain ⟨q, hq, rfl⟩ := exists_of_map_eq_ok honce
    unfold pathValue at hq
    split at hq
    · cases hq
    · rename_i hvalue
      cases hq
      intro hempty
      exact hvalue (congrArg Path.bytes (Option.some.inj hempty))

/-- No arguments make the root the empty path, which is refused as a value. -/
theorem path?_readArguments {onlyPaths : Bool} {c c' : Command} {arguments : List Argument}
    (hpath : c.path? ≠ some Path.empty) (h : readArguments onlyPaths c arguments = .ok c') :
    c'.path? ≠ some Path.empty := by
  fun_induction readArguments onlyPaths c arguments with
  | case1 onlyPaths c =>
    cases h
    exact hpath
  | case2 onlyPaths c a rest hdashes ih => exact ih hpath h
  | case4 onlyPaths c a rest hdashes hoption done hread ih =>
    have hkept : done.path? = c.path? := path?_readOption hread
    exact ih (hkept ▸ hpath) h
  | case7 onlyPaths c a hdashes hoption pending s hread value rest hvalue c' hset ih =>
    have hkept : pending.path? = c.path? := path?_readOption hread
    exact ih (((path?_set hset).trans hkept) ▸ hpath) h
  | case9 onlyPaths c a rest hdashes hoption c' hset ih => exact ih (path?_setPath hset) h
  -- In all other cases an argument is wrong, and no command comes of it.
  | case3 => cases h
  | case5 => cases h
  | case6 => cases h
  | case8 => cases h
  | case10 => cases h

/-- No command line gives an empty root. -/
theorem root_ne_empty_of_parse {arguments : List Argument} {c : Command}
    (h : parse arguments = .ok c) : c.root ≠ Path.empty := by
  have hpath : c.path? ≠ some Path.empty := by
    refine path?_readArguments ?_ h
    exact nofun
  unfold Command.root
  cases hgiven : c.path? with
  | none => decide +kernel
  | some p =>
    intro hempty
    rw [hgiven] at hpath
    exact hpath (congrArg some hempty)

end Unimported.CommandLine
