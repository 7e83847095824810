import Mathlib.Data.List.TakeWhile

/-!
# `Unimported.Proofs.Text.Run`: runs of characters

A reader that takes all characters of one kind stops where another kind begins. What is in
front of that place and what is behind it are known as soon as the text is written as the
run and the rest.

* `StopsAt` says that a text does not go on with a kind of characters.
* `takeWhile_append`, `dropWhile_append`: a run is taken, or passed over, as a whole.
* `stopsAt_dropWhile`: what is behind a run does not go on with it.
* `exists_of_map_eq_some`: a reader that changes what another one has read leaves the same
  rest.
-/

set_option autoImplicit false

namespace Unimported

/-- Whether a text begins with no character of this kind. -/
def StopsAt (p : Char → Bool) (text : List Char) : Prop :=
  ∀ c rest, text = c :: rest → p c = false

/-- A run stops at the end of a text. -/
theorem stopsAt_nil (p : Char → Bool) : StopsAt p [] := by
  intro c rest h
  cases h

/-- A run stops at a character of another kind. -/
theorem stopsAt_cons {p : Char → Bool} {c : Char} (h : p c = false) (rest : List Char) :
    StopsAt p (c :: rest) := by
  intro d tail heq
  cases heq
  exact h

/-- A run of characters of one kind ends where another kind begins. -/
theorem takeWhile_append {p : Char → Bool} {run rest : List Char} (hrun : ∀ c ∈ run, p c = true)
    (hrest : StopsAt p rest) : (run ++ rest).takeWhile p = run := by
  rw [List.takeWhile_append_of_pos hrun]
  cases rest with
  | nil => simp
  | cons c rest => simp [hrest c rest rfl]

/-- Behind a run that stops, the rest is left. -/
theorem dropWhile_append {p : Char → Bool} {run rest : List Char} (hrun : ∀ c ∈ run, p c = true)
    (hrest : StopsAt p rest) : (run ++ rest).dropWhile p = rest := by
  rw [List.dropWhile_append_of_pos hrun]
  cases rest with
  | nil => rfl
  | cons c rest => simp [hrest c rest rfl]

/-- Where a run stops at once, nothing is dropped. -/
theorem dropWhile_eq_self {p : Char → Bool} {text : List Char} (h : StopsAt p text) :
    text.dropWhile p = text :=
  dropWhile_append (fun _ hc => absurd hc List.not_mem_nil) h

/-- What is behind the run that a text starts with. -/
theorem drop_length_takeWhile (p : Char → Bool) (text : List Char) :
    text.drop (text.takeWhile p).length = text.dropWhile p := by
  have hsplit : text.takeWhile p ++ text.dropWhile p = text :=
    List.takeWhile_append_dropWhile
  calc text.drop (text.takeWhile p).length
      = (text.takeWhile p ++ text.dropWhile p).drop (text.takeWhile p).length := by rw [hsplit]
    _ = text.dropWhile p := List.drop_left

/-- Behind a run no character of its kind comes next. -/
theorem stopsAt_dropWhile (p : Char → Bool) (text : List Char) :
    StopsAt p (text.dropWhile p) := by
  intro c rest h
  simpa [h] using List.head?_dropWhile_not p text

/-- A reader that only changes what another one has read. -/
theorem exists_of_map_eq_some {α β γ : Type} {read : Option (α × γ)} {f : α × γ → β × γ} {b : β}
    {rest : γ} (h : read.map f = some (b, rest)) (hf : ∀ x, (f x).2 = x.2) :
    ∃ a, read = some (a, rest) ∧ (f (a, rest)).1 = b := by
  obtain ⟨⟨a, rest'⟩, hread, heq⟩ := Option.map_eq_some_iff.mp h
  obtain rfl : rest' = rest := (hf (a, rest')).symm.trans (congrArg Prod.snd heq)
  exact ⟨a, hread, congrArg Prod.fst heq⟩

end Unimported
