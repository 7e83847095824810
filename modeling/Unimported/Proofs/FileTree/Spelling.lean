import Unimported.Proofs.FileTree.NormalForm
import Unimported.Proofs.Path.Respelling

/-!
# `Unimported.Proofs.FileTree.Spelling`: lookups and the spelling of a path

A step that stays where it is asks for a directory, and every other step asks for one as
well. So such a step says nothing as long as another one comes after it, and a lookup may
leave it out, links and all. Only at the end of a path does it make a difference. The
statements:

* `FileTree.lookupFrom_tidy`: a lookup ends at the same place, or fails for the same
  reason, when it leaves these steps out.
* `stat_join_of_respells`: what is put behind two spellings of a path leads to the same
  entry, or fails for the same reason, as long as it is short enough.
* `stat_directory_of_respells`: two spellings of a path lead to the same directory.
* `isDir_of_stat_join`: nothing is named behind a path that names no directory.
-/

set_option autoImplicit false

namespace Unimported

open Unimported.Path

/-! ### Steps that can be left out -/

/-- The steps without those that stay, unless one of them is the last step. -/
def tidy : List PathStep → List PathStep
  | [] => []
  | .stay :: rest => if rest = [] then [.stay] else tidy rest
  | .up :: rest => .up :: tidy rest
  | .into bytes :: rest => .into bytes :: tidy rest

/-- Tidying leaves no steps only where there were none. -/
theorem tidy_eq_nil_iff {steps : List PathStep} : tidy steps = [] ↔ steps = [] := by
  induction steps with
  | nil => exact Iff.rfl
  | cons step rest ih =>
    cases step with
    | stay =>
      rw [tidy]
      split
      · simp
      · simpa using ih.not.mpr ‹_›
    | up => simp [tidy]
    | into bytes => simp [tidy]

/-- In front of other steps, no step that stays is kept. -/
theorem tidy_append {steps more : List PathStep} (hmore : more ≠ []) :
    tidy (steps ++ more) = steps.filter (· ≠ .stay) ++ tidy more := by
  induction steps with
  | nil => rfl
  | cons step rest ih =>
    cases step with
    | stay =>
      rw [List.cons_append, tidy, if_neg (by simp [hmore]), ih]
      rfl
    | up =>
      rw [List.cons_append, tidy, ih]
      rfl
    | into bytes =>
      rw [List.cons_append, tidy, ih]
      rfl

/-- Tidied steps stay as they are. -/
theorem tidy_tidy (steps : List PathStep) : tidy (tidy steps) = tidy steps := by
  induction steps with
  | nil => rfl
  | cons step rest ih =>
    cases step with
    | stay =>
      rw [tidy]
      split
      · rfl
      · exact ih
    | up => rw [tidy, tidy, ih]
    | into bytes => rw [tidy, tidy, ih]

/-- It makes no difference if the steps behind others are tidied before. -/
theorem tidy_append_tidy (steps more : List PathStep) :
    tidy (steps ++ tidy more) = tidy (steps ++ more) := by
  by_cases hmore : more = []
  · rw [hmore, tidy]
  · rw [tidy_append hmore, tidy_append (tidy_eq_nil_iff.not.mpr hmore), tidy_tidy]

namespace FileTree

variable {t : FileTree}

/-- What is left of a lookup when its steps are tidied. -/
def Advance.tidy : Advance → Advance
  | .link dir target rest => .link dir target (Unimported.tidy rest)
  | a => a

/-- A step that stays asks for a directory, and so does the step after it. -/
theorem advance_stay_cons {loc : Location} {rest : List PathStep} (hrest : rest ≠ []) :
    t.advance loc (.stay :: rest) = t.advance loc rest := by
  obtain ⟨step, more, rfl⟩ := List.exists_cons_of_ne_nil hrest
  rw [advance]
  split
  · rfl
  · simp [advance, *]
  · simp [advance, *]

/-- Tidied steps lead to the same place. -/
theorem advance_tidy {loc : Location} {steps : List PathStep} :
    t.advance loc (tidy steps) = (t.advance loc steps).tidy := by
  induction steps generalizing loc with
  | nil =>
    rw [tidy, advance]
    split <;> rfl
  | cons step rest ih =>
    cases step with
    | stay =>
      rw [tidy]
      split
      · -- At the end a step that stays is kept, since it asks for a directory.
        rename_i hrest
        subst hrest
        simp only [advance]
        split
        · split <;> rfl
        · rfl
        · rfl
      · rw [advance_stay_cons ‹_›, ih]
    | up =>
      rw [tidy, advance, advance]
      split
      · exact ih
      · rfl
      · rfl
    | into bytes =>
      rw [tidy, advance, advance]
      split
      · simp only [tidy_eq_nil_iff]
        split
        · rfl
        · split
          · split <;> rfl
          · rfl
          · exact ih
      · rfl
      · rfl

/-- Steps that can be left out make no difference to a lookup. -/
theorem lookupFrom_tidy (links : Nat) {loc : Location} {steps : List PathStep} :
    t.lookupFrom links loc (tidy steps) = t.lookupFrom links loc steps := by
  induction links generalizing loc steps with
  | zero =>
    rw [lookupFrom, lookupFrom, advance_tidy]
    cases t.advance loc steps <;> rfl
  | succ links ih =>
    rw [lookupFrom, lookupFrom, advance_tidy]
    cases t.advance loc steps with
    | ended place => rfl
    | failed error => rfl
    | link dir target rest =>
      -- The rest comes behind the steps of the target, which may have some to leave out.
      simp only [Advance.tidy]
      rw [← ih, tidy_append_tidy, ih]

/-- A lookup depends on its steps as they are when they are tidied. -/
theorem lookupFrom_of_tidy_eq (links : Nat) {loc : Location} {steps steps' : List PathStep}
    (h : tidy steps = tidy steps') :
    t.lookupFrom links loc steps = t.lookupFrom links loc steps' := by
  rw [← lookupFrom_tidy, h, lookupFrom_tidy]

end FileTree

/-! ### Spellings of a path -/

/-- The step of an active segment. -/
def stepOf (segment : List UInt8) : PathStep :=
  if segment = [dot, dot] then .up else .into segment

/-- The steps of a path that do not stay belong to its active segments. -/
theorem filter_steps (p : Path) :
    p.steps.filter (· ≠ .stay) = p.activeSegments.map stepOf := by
  rw [steps, activeSegments]
  induction p.segments with
  | nil => rfl
  | cons segment rest ih =>
    rw [List.map_cons, List.filter_cons, List.filter_cons]
    by_cases hidle : segment = [] ∨ segment = [dot]
    · rw [if_pos hidle]
      rcases hidle with rfl | rfl
      · exact ih
      · exact ih
    · have hactive : decide (segment ≠ [] ∧ segment ≠ [dot]) = true :=
        decide_eq_true (not_or.mp hidle)
      have hstep : (if segment = [dot, dot] then PathStep.up else .into segment) ≠ .stay := by
        split
        · exact PathStep.noConfusion
        · exact PathStep.noConfusion
      rw [if_neg hidle, if_pos (decide_eq_true hstep), if_pos hactive, List.map_cons, ← ih]
      rfl

/-- The steps of a path behind another one, tidied. -/
theorem tidy_steps_join (p q : Path) (hq : q.isAbsolute = false) :
    tidy (p.join q).steps = p.activeSegments.map stepOf ++ tidy q.steps := by
  rcases join_cases p q hq with ⟨hp, hj⟩ | ⟨above, hp, hj⟩ | ⟨-, hj⟩
  · have hnone : p.activeSegments = [] := by
      rw [activeSegments, segments, hp]
      rfl
    rw [hj, hnone]
    rfl
  · have hidle : (⟨[]⟩ : Path).activeSegments = [] := rfl
    rw [Workspace.steps_of_bytes_append hj, tidy_append (steps_ne_nil q), filter_steps,
      activeSegments_of_bytes_append hp, hidle, List.append_nil]
  · rw [Workspace.steps_of_bytes_append hj, tidy_append (steps_ne_nil q), filter_steps]

namespace Workspace

variable {w : Workspace} {p q : Path}

/-- A path behind two spellings of a directory leads to the same place. -/
theorem locate_join_of_respells (h : Respells p q) {r : Path} (hr : r.isAbsolute = false)
    (hne : r ≠ Path.empty) (hp : (p.join r).bytes.length < pathLimit)
    (hq : (q.join r).bytes.length < pathLimit) :
    w.locate (p.join r) = w.locate (q.join r) := by
  have hsame := h.join hr
  have hzero : (p.join r).bytes.contains 0 = (q.join r).bytes.contains 0 := by
    rw [Bool.eq_iff_iff, List.contains_iff_mem, List.contains_iff_mem]
    exact hsame.mem_bytes_iff (by decide) (by decide)
  have hstart : (p.join r).startFrom w.current = (q.join r).startFrom w.current := by
    rw [startFrom, startFrom, hsame.isAbsolute]
  have hsteps : tidy (p.join r).steps = tidy (q.join r).steps := by
    rw [tidy_steps_join p r hr, tidy_steps_join q r hr, h.activeSegments]
  have hjoined : p.join r ≠ Path.empty ∧ q.join r ≠ Path.empty :=
    ⟨join_ne_empty p hr hne, join_ne_empty q hr hne⟩
  unfold locate FileTree.locate
  rw [hzero, if_neg (Nat.not_le.mpr hp), if_neg (Nat.not_le.mpr hq), if_neg hjoined.1,
    if_neg hjoined.2, hstart, FileTree.lookupFrom_of_tidy_eq _ hsteps]

/-- A path behind two spellings of a directory names the same, if it is not too long behind
either. -/
theorem stat_join_of_respells (h : Respells p q) {r : Path} (hr : r.isAbsolute = false)
    (hne : r ≠ Path.empty) (hp : (p.join r).bytes.length < pathLimit)
    (hq : (q.join r).bytes.length < pathLimit) : w.stat (p.join r) = w.stat (q.join r) := by
  rw [stat, stat, locate_join_of_respells h hr hne hp hq]

/-- Two spellings of a path lead to the same directory. -/
theorem stat_directory_of_respells (h : Respells p q) (hne : q ≠ Path.empty)
    (hshort : q.bytes.length < pathLimit) {loc : Location}
    (hdir : w.stat p = .ok (loc, .directory)) : w.stat q = .ok (loc, .directory) := by
  obtain ⟨hzero, -, -, hlookup⟩ := locate_eq_ok_iff.mp (stat_eq_ok_iff.mp hdir)
  rw [stat_eq_ok_iff, locate_eq_ok_iff]
  refine ⟨?_, hshort, hne, ?_⟩
  · rw [← h.mem_bytes_iff (by decide) (by decide)]
    exact hzero
  · -- A directory is still there when one more step asks for it, and then all is tidy.
    obtain ⟨left, hleft⟩ := FileTree.lookupFrom_append _ hlookup
    have hentry := FileTree.entryAt_of_lookupFrom _ hlookup
    have hstart : q.startFrom w.current = p.startFrom w.current := by
      rw [startFrom, startFrom, h.isAbsolute]
    have hsteps : tidy (q.steps ++ [.stay]) = tidy (p.steps ++ [.stay]) := by
      rw [tidy_append (List.cons_ne_nil _ _), tidy_append (List.cons_ne_nil _ _), filter_steps,
        filter_steps, h.activeSegments]
    refine FileTree.lookupFrom_stay _ ?_
    rw [hstart, FileTree.lookupFrom_of_tidy_eq _ hsteps, hleft]
    cases left <;> simp [FileTree.lookupFrom, FileTree.advance, hentry]

/-- What a path names behind another one is in a directory, which the other one names. -/
theorem isDir_of_stat_join {r : Path} (hp : p ≠ Path.empty) (hr : r.isAbsolute = false)
    {entry : Location × Entry} (h : w.stat (p.join r) = .ok entry) : w.isDir p = true := by
  obtain ⟨loc, e⟩ := entry
  obtain ⟨hzero, hshort, -, hlookup⟩ := locate_eq_ok_iff.mp (stat_eq_ok_iff.mp h)
  have hstart : (p.join r).startFrom w.current = p.startFrom w.current := by
    rw [startFrom, startFrom, isAbsolute_join p r hr]
  have hsteps : tidy (p.join r).steps = tidy (p.steps ++ r.steps) := by
    rw [tidy_steps_join p r hr, tidy_append (steps_ne_nil r), filter_steps]
  rw [hstart, FileTree.lookupFrom_of_tidy_eq _ hsteps] at hlookup
  -- The lookup of the joined path takes the steps of the first one, and goes on.
  obtain ⟨l, hl⟩ := FileTree.lookupFrom_front _ (steps_ne_nil r) hlookup
  refine isDir_iff.mpr ⟨l, stat_eq_ok_iff.mpr (locate_eq_ok_iff.mpr ⟨?_, ?_, hp, hl⟩)⟩
  · intro hmem
    refine hzero ?_
    rcases join_cases p r hr with ⟨hempty, -⟩ | ⟨above, habove, hj⟩ | ⟨-, hj⟩
    · simp [hempty] at hmem
    · rw [habove] at hmem
      rw [hj]
      simp only [List.mem_append, List.mem_cons, List.not_mem_nil, or_false] at hmem ⊢
      exact hmem.imp_right Or.inl
    · rw [hj]
      exact List.mem_append_left _ hmem
  · exact Nat.lt_of_le_of_lt (length_le_join p r hr) hshort

end Workspace

end Unimported
