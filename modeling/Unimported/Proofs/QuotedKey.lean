import Unimported.Proofs.Yaml.Plain
import Unimported.Toml.Text

/-!
# `Unimported.Proofs.QuotedKey`: quotes that both languages read

A key in quotes is a text of one line in TOML and a quoted scalar in YAML. The two
languages disagree on escape sequences, on line breaks and on a quote that is written
twice, and a text that only one of them accepts is of no interest here. Where both accept
the text, it ends at the same quote.

- `basic_ends_together` is the case of double quotes. An escape sequence that both know
  has the same length in both.
- `literal_ends_together` is the case of single quotes. In YAML two of them stand for one,
  so what follows must not be a quote.
-/

set_option autoImplicit false

namespace Unimported

open Yaml

variable {c after : Cursor} {n : Nat} {text tail : List Char}

/-! ### White space -/

section Gap

variable {R : List Char → Prop} (hR : ∀ ch rest, isGapChar ch → R (ch :: rest) → R rest)
include hR

/-- What holds of the text at a line break and is kept from one character to the next holds behind
it, also where the break has two characters. -/
theorem skipBreak_rest_induct {ch : Char} {rest : List Char} (hrest : c.rest = ch :: rest)
    (hch : isBreak ch) (hc : R c.rest) : R c.skipBreak.rest := by
  have hfirst : R rest := hR ch rest (by simp [isGapChar, hch]) (hrest ▸ hc)
  simp only [Cursor.skipBreak, hrest]
  split
  next htwo =>
    obtain ⟨d, rest, rfl⟩ : ∃ d rest', rest = d :: rest' := by
      cases rest with
      | nil => simp at htwo
      | cons d rest => exact ⟨d, rest, rfl⟩
    obtain ⟨-, rfl⟩ : ch = '\r' ∧ d = '\n' := by simpa using htwo
    exact hR '\n' rest (by decide) hfirst
  next => exact hfirst

/-- White space takes from a text one character after the other. -/
theorem gapWithin_rest_induct {indent : Nat} {broken : Bool} {g : Gap}
    (h : c.gapWithin indent n broken = some (g, after)) (hc : R c.rest) : R after.rest := by
  refine (Cursor.gapWithin_induct (R := fun c => R c.rest) ?_ ?_ h hc).1
  · intro c ch rest hrest hch hc
    simp only [Cursor.skip, hrest, List.drop_succ_cons, List.drop_zero]
    exact hR ch rest (by simp [isGapChar, hch]) (hrest ▸ hc)
  · exact fun c ch rest hrest hch hc => skipBreak_rest_induct hR hrest hch hc

end Gap

/-! ### Double quotes -/

/-- White space is neither a quote nor a backslash. -/
theorem ne_of_isGapChar {ch : Char} (h : isGapChar ch) :
    ch ≠ '"' ∧ ch ≠ '\\' ∧ ch ≠ '\'' := by
  refine ⟨?_, ?_, ?_⟩ <;>
    · rintro rfl
      exact absurd h (by decide)

/-- A character without a meaning of its own is one character of the text. -/
theorem basicWithin_cons {ch : Char} {rest : List Char} {m : Nat} {v : List Char}
    (hquote : ch ≠ '"') (hslash : ch ≠ '\\')
    (h : Toml.basicWithin m (ch :: rest) = some (v, tail)) :
    ∃ m v, Toml.basicWithin m rest = some (v, tail) := by
  cases m with
  | zero => cases h
  | succ m =>
    rw [Toml.basicWithin] at h
    · split at h
      · obtain ⟨w, hw, -⟩ := exists_of_map_eq_some h fun _ => rfl
        exact ⟨m, w, hw⟩
      · cases h
    · exact hquote
    · exact hslash

/-- The digits of an escape are stepped over, and no more. -/
theorem numbered?_rest {count : Nat} {e : Char} (h : Toml.numbered? count text = some (e, tail)) :
    tail = text.drop count := by
  simp only [Toml.numbered?] at h
  split at h
  · split at h
    · split at h
      · cases h
      · exact (Prod.mk.inj (Option.some.inj h)).2.symm
    · cases h
  · cases h

/-- An escape sequence that both languages know has the same length in both. -/
theorem escape?_rest {e e' : Char} {rest : List Char} (hrest : c.rest = '\\' :: rest)
    (hyaml : Scalar.escape? c = some (e, after)) (htoml : Toml.escape? rest = some (e', tail)) :
    after.rest = tail := by
  simp only [Toml.escape?] at htoml
  split at htoml
  case h_8 | h_9 =>
    simp [Scalar.escape?, hrest, Scalar.escaped?, Scalar.digitCount?] at hyaml
    obtain ⟨_, -, -, rfl⟩ := hyaml
    rw [numbered?_rest htoml]
    simp [Cursor.skip, hrest]
  case h_10 => cases htoml
  -- One letter behind the backslash.
  all_goals
    simp [Scalar.escape?, hrest, Scalar.escaped?] at hyaml
    obtain ⟨-, rfl⟩ := hyaml
    obtain ⟨-, rfl⟩ := Prod.mk.inj (Option.some.inj htoml)
    simp [Cursor.skip, hrest]

/-- No escape of TOML begins with a line break of YAML. -/
theorem not_isBreak_of_escape? {e : Char} {rest : List Char}
    (h : Toml.escape? rest = some (e, tail)) : rest.head?.any isBreak = false := by
  simp only [Toml.escape?] at h
  split at h
  case h_10 => cases h
  all_goals rfl

/-- A text that both languages read in double quotes ends at the same quote. -/
theorem basic_ends_together (hyaml : Scalar.quotedWithin true n c = some (text, after))
    (htoml : ∃ m v, Toml.basicWithin m c.rest = some (v, tail)) :
    after.rest = tail ∧ 0 < after.column := by
  induction n generalizing c text with
  | zero => cases hyaml
  | succ n ih =>
    simp only [Scalar.quotedWithin] at hyaml
    split at hyaml
    · cases hyaml
    next ch rest hrest =>
      split at hyaml
      next hgap =>
        -- White space is one gap in YAML, and as many characters in TOML.
        split at hyaml
        next g c₁ hg =>
          split at hyaml
          · cases hyaml
          · obtain ⟨more, hmore, -⟩ := exists_of_map_eq_some hyaml fun _ => rfl
            refine ih hmore (gapWithin_rest_induct
              (R := fun t => ∃ m v, Toml.basicWithin m t = some (v, tail)) ?_ hg htoml)
            rintro d more hd ⟨m, v, h⟩
            exact basicWithin_cons (ne_of_isGapChar hd).1 (ne_of_isGapChar hd).2.1 h
        next => cases hyaml
      next hgap =>
        simp only [if_true] at hyaml
        obtain ⟨m, v, htoml⟩ := htoml
        rw [hrest] at htoml
        split at hyaml
        next hquote =>
          obtain ⟨-, rfl⟩ := Prod.mk.inj (Option.some.inj hyaml)
          subst hquote
          cases m with
          | zero => cases htoml
          | succ m =>
            obtain ⟨-, rfl⟩ := Prod.mk.inj (Option.some.inj htoml)
            simp [Cursor.skip, hrest]
        next hquote =>
          split at hyaml
          next hslash =>
            subst hslash
            cases m with
            | zero => cases htoml
            | succ m =>
              simp only [Toml.basicWithin] at htoml
              split at htoml
              next e' rest' he' =>
                obtain ⟨w, hw, -⟩ := exists_of_map_eq_some htoml fun _ => rfl
                rw [not_isBreak_of_escape? he', if_neg Bool.false_ne_true] at hyaml
                split at hyaml
                next e c₁ he =>
                  obtain ⟨more, hmore, -⟩ := exists_of_map_eq_some hyaml fun _ => rfl
                  exact ih hmore ⟨m, w, escape?_rest hrest he he' ▸ hw⟩
                next => cases hyaml
              next => cases htoml
          next hslash =>
            obtain ⟨more, hmore, -⟩ := exists_of_map_eq_some hyaml fun _ => rfl
            refine ih hmore ?_
            simpa [Cursor.skip, hrest] using basicWithin_cons hquote hslash htoml

/-! ### Single quotes -/

/-- Behind a character other than the quote the text is still to be closed. -/
theorem literalRest?_cons {ch : Char} {rest : List Char} (hquote : ch ≠ '\'')
    (h : ∃ v, Toml.literalRest? (ch :: rest) = some (v, tail)) :
    ∃ v, Toml.literalRest? rest = some (v, tail) := by
  obtain ⟨v, h⟩ := h
  rw [Toml.literalRest?, if_neg hquote] at h
  split at h
  · obtain ⟨w, hw, -⟩ := exists_of_map_eq_some h fun _ => rfl
    exact ⟨w, hw⟩
  · cases h

/-- A text that both languages read in single quotes ends at the same quote, unless one
more quote follows it. -/
theorem literal_ends_together (hyaml : Scalar.quotedWithin false n c = some (text, after))
    (htoml : ∃ v, Toml.literalRest? c.rest = some (v, tail)) (htail : tail.head? ≠ some '\'') :
    after.rest = tail ∧ 0 < after.column := by
  induction n generalizing c text with
  | zero => cases hyaml
  | succ n ih =>
    simp only [Scalar.quotedWithin] at hyaml
    split at hyaml
    · cases hyaml
    next ch rest hrest =>
      -- White space is folded in YAML and is taken as it is in TOML.
      split at hyaml
      next hgap =>
        split at hyaml
        next g c₁ hg =>
          split at hyaml
          · cases hyaml
          · obtain ⟨more, hmore, -⟩ := exists_of_map_eq_some hyaml fun _ => rfl
            refine ih hmore (gapWithin_rest_induct
              (R := fun t => ∃ v, Toml.literalRest? t = some (v, tail)) ?_ hg htoml)
            exact fun d more hd h => literalRest?_cons (ne_of_isGapChar hd).2.2 h
        next => cases hyaml
      next hgap =>
        simp only [if_neg Bool.false_ne_true] at hyaml
        rw [hrest] at htoml
        -- A quote ends the text in both languages, since no second one follows it.
        split at hyaml
        next hquote =>
          obtain ⟨v, htoml⟩ := htoml
          rw [hquote, Toml.literalRest?, if_pos rfl] at htoml
          obtain ⟨-, rfl⟩ := Prod.mk.inj (Option.some.inj htoml)
          rw [if_neg htail] at hyaml
          obtain ⟨-, rfl⟩ := Prod.mk.inj (Option.some.inj hyaml)
          simp [Cursor.skip, hrest]
        next hquote =>
          obtain ⟨more, hmore, -⟩ := exists_of_map_eq_some hyaml fun _ => rfl
          refine ih hmore ?_
          simpa [Cursor.skip, hrest] using literalRest?_cons hquote htoml

/-! ### Quotes of either kind -/

/-- A text of one line that both languages read ends at the same quote, unless one more
quote follows it. -/
theorem quoted_ends_together {quote : Char} {rest v : List Char} (hrest : c.rest = quote :: rest)
    (htoml : Toml.lineString? (quote :: rest) = some (v, tail))
    (hyaml : Scalar.quoted? (quote == '"') c = some (text, after))
    (htail : tail.head? ≠ some '\'') : after.rest = tail ∧ 0 < after.column := by
  have hskip : (c.skip 1).rest = rest := by simp [Cursor.skip, hrest]
  simp only [Toml.lineString?] at htoml
  split at htoml
  next rest' heq =>
    obtain ⟨rfl, rfl⟩ := List.cons.inj heq
    exact basic_ends_together hyaml ⟨_, v, hskip ▸ htoml⟩
  next rest' heq =>
    obtain ⟨rfl, rfl⟩ := List.cons.inj heq
    exact literal_ends_together hyaml ⟨v, hskip ▸ htoml⟩ htail
  next => cases htoml

end Unimported
