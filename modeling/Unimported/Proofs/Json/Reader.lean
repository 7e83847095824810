import Unimported.Proofs.Json.Grammar
import Unimported.Proofs.Text.Run

/-!
# `Unimported.Proofs.Json.Reader`: reading a JSON text

A reader that goes through a text from left to right and looks one character ahead. It
reads every text of the grammar and finds the value that the grammar gives it, so no text
spells two values. That it has to look ahead at all is due to numbers: they have no sign at
their end. What follows a value in a text is white space or punctuation, never a character
that could go on with a number, and so the reader takes all characters of this kind at once.
The fuel of the reader is the length of the text. The statements:

* `readNumber_of_spells`, `readBody_of_spells`: numbers and texts are read.
* `reads_of_spells`: so is each part of a text, whatever comes behind it.
* `read_of_isDocument`: so is the whole, and `IsDocument.unique` follows.
-/

set_option autoImplicit false

namespace Unimported.JsonText

/-! ### White space -/

/-- What is left behind white space. -/
def skipBlank (text : List Char) : List Char :=
  text.dropWhile isBlank

/-- White space in front of other text is stepped over, and no more. -/
theorem skipBlank_append {blank rest : List Char} (hblank : IsBlankText blank)
    (hrest : StopsAt isBlank rest) : skipBlank (blank ++ rest) = rest :=
  dropWhile_append hblank hrest

/-! ### Numbers -/

/-- The value of a text that has nothing but digits, and at least one. -/
def readDigits (text : List Char) : Option Nat :=
  if text ≠ [] ∧ text.all Char.isDigit then some (valueOf text) else none

/-- The digits from the point on, and the text behind them. -/
def readFraction (text : List Char) : Option (List Char × List Char) :=
  match text with
  | [] => some ([], [])
  | c :: rest =>
    if c = '.' then
      if rest.takeWhile Char.isDigit = [] then none
      else some (rest.takeWhile Char.isDigit, rest.dropWhile Char.isDigit)
    else some ([], text)

/-- The exponent that a text is, if it is one. -/
def readExponent (text : List Char) : Option Int :=
  match text with
  | [] => some 0
  | e :: rest =>
    if e = 'e' ∨ e = 'E' then
      match rest with
      | [] => none
      | sign :: digits =>
        if sign = '+' then (readDigits digits).map Int.ofNat
        else if sign = '-' then (readDigits digits).map fun n => -Int.ofNat n
        else (readDigits rest).map Int.ofNat
    else none

/-- The number without a sign that a text is, if it is one. -/
def readUnsigned (text : List Char) : Option (Nat × Int) :=
  let whole := text.takeWhile Char.isDigit
  if whole = [] ∨ (whole.head? = some '0' ∧ whole ≠ ['0']) then none
  else
    match readFraction (text.dropWhile Char.isDigit) with
    | none => none
    | some (digits, rest) =>
      (readExponent rest).map fun e => (valueOf (whole ++ digits), e - digits.length)

/-- The number that a text is, if it is one. -/
def readNumber (text : List Char) : Option JsonNumber :=
  match text with
  | [] => none
  | c :: rest =>
    if c = '-' then (readUnsigned rest).map fun (m, e) => ⟨-Int.ofNat m, e⟩
    else (readUnsigned text).map fun (m, e) => ⟨Int.ofNat m, e⟩

/-- Digits are read as their value. -/
theorem readDigits_of_isDigits {text : List Char} (h : IsDigits text) :
    readDigits text = some (valueOf text) :=
  if_pos ⟨h.1, List.all_eq_true.mpr h.2⟩

/-- An exponent begins with a letter. -/
theorem head_of_spellsExponent {text : List Char} {e : Int} (h : SpellsExponent text e) :
    text = [] ∨ ∃ c rest, text = c :: rest ∧ (c = 'e' ∨ c = 'E') := by
  cases h with
  | none => exact Or.inl rfl
  | bare he h => exact Or.inr ⟨_, _, rfl, he⟩
  | plus he h => exact Or.inr ⟨_, _, rfl, he⟩
  | minus he h => exact Or.inr ⟨_, _, rfl, he⟩

/-- An exponent is read as what it spells. -/
theorem readExponent_of_spells {text : List Char} {e : Int} (h : SpellsExponent text e) :
    readExponent text = some e := by
  cases h with
  | none => rfl
  | bare he h =>
    rename_i c digits
    obtain ⟨d, rest, rfl⟩ := List.exists_cons_of_ne_nil h.1
    have hdigit : d.isDigit = true := h.2 d List.mem_cons_self
    -- A digit is none of the signs.
    have hplus : d ≠ '+' := by
      rintro rfl
      cases hdigit
    have hminus : d ≠ '-' := by
      rintro rfl
      cases hdigit
    simp only [readExponent]
    rw [if_pos he, if_neg hplus, if_neg hminus, readDigits_of_isDigits h]
    rfl
  | plus he h =>
    simp only [readExponent]
    rw [if_pos he, if_true, readDigits_of_isDigits h]
    rfl
  | minus he h =>
    simp only [readExponent]
    rw [if_pos he, if_neg (by decide), if_true, readDigits_of_isDigits h]
    rfl

/-- A number without a sign is read as what it spells. -/
theorem readUnsigned_of_spells {text : List Char} {m : Nat} {e : Int}
    (h : SpellsUnsigned text m e) : readUnsigned text = some (m, e) := by
  cases h with
  | parts hwhole hfraction hexponent =>
    rename_i whole fraction digits exponent e
    -- Each of the three parts ends where the first sign of the next one stands.
    have hletter : StopsAt Char.isDigit exponent := by
      rcases head_of_spellsExponent hexponent with rfl | ⟨c, rest, rfl, rfl | rfl⟩
      · exact stopsAt_nil _
      · exact stopsAt_cons rfl rest
      · exact stopsAt_cons rfl rest
    have hpoint : StopsAt Char.isDigit (fraction ++ exponent) := by
      cases hfraction with
      | none => exact hletter
      | some hdigits => exact stopsAt_cons rfl _
    have hread : readFraction (fraction ++ exponent) = some (digits, exponent) := by
      cases hfraction with
      | none =>
        rcases head_of_spellsExponent hexponent with rfl | ⟨c, rest, rfl, rfl | rfl⟩
        · rfl
        · rfl
        · rfl
      | some hdigits =>
        show (if (digits ++ exponent).takeWhile Char.isDigit = [] then none
          else some ((digits ++ exponent).takeWhile Char.isDigit,
            (digits ++ exponent).dropWhile Char.isDigit)) = some (digits, exponent)
        rw [takeWhile_append hdigits.2 hletter, dropWhile_append hdigits.2 hletter,
          if_neg hdigits.1]
    have hzero : ¬(whole = [] ∨ (whole.head? = some '0' ∧ whole ≠ ['0'])) := by
      rintro (hnil | ⟨hhead, hne⟩)
      · exact hwhole.1.1 hnil
      · exact hne (hwhole.2 hhead)
    unfold readUnsigned
    rw [takeWhile_append hwhole.1.2 hpoint, dropWhile_append hwhole.1.2 hpoint]
    simp only
    rw [if_neg hzero, hread]
    simp only
    rw [readExponent_of_spells hexponent]
    rfl

/-- A number without a sign begins with a digit. -/
theorem head_of_spellsUnsigned {text : List Char} {m : Nat} {e : Int}
    (h : SpellsUnsigned text m e) : ∃ c rest, text = c :: rest ∧ c.isDigit = true := by
  cases h with
  | parts hwhole hfraction hexponent =>
    obtain ⟨c, rest, rfl⟩ := List.exists_cons_of_ne_nil hwhole.1.1
    exact ⟨c, _, rfl, hwhole.1.2 c List.mem_cons_self⟩

/-- A number is read as what it spells. -/
theorem readNumber_of_spells {text : List Char} {n : JsonNumber} (h : SpellsNumber text n) :
    readNumber text = some n := by
  cases h with
  | positive h =>
    obtain ⟨c, rest, rfl, hdigit⟩ := head_of_spellsUnsigned h
    have hminus : c ≠ '-' := by
      rintro rfl
      cases hdigit
    simp only [readNumber]
    rw [if_neg hminus, readUnsigned_of_spells h]
    rfl
  | negative h =>
    simp only [readNumber]
    rw [if_true, readUnsigned_of_spells h]
    rfl

example : readNumber ['-', '0', '.', '5', 'e', '+', '1'] = some ⟨-5, 0⟩ := by decide +kernel

/-! ### Texts -/

/-- The value of four hexadecimal digits, and the text behind them. -/
def readUnit (text : List Char) : Option (Nat × List Char) :=
  match text with
  | a :: b :: c :: d :: rest =>
    match hexValue a, hexValue b, hexValue c, hexValue d with
    | some i, some j, some k, some l => some (((i * 16 + j) * 16 + k) * 16 + l, rest)
    | _, _, _, _ => none
  | _ => none

/-- The character whose number begins the text, and the text behind it. The first one of a
pair of surrogates has to be followed by the second one. -/
def readNumbered (text : List Char) : Option (Char × List Char) :=
  match readUnit text with
  | none => none
  | some (m, rest) =>
    if IsHighSurrogate m then
      match rest with
      | backslash :: u :: low =>
        if backslash = '\\' ∧ u = 'u' then
          match readUnit low with
          | none => none
          | some (n, rest) =>
            if IsLowSurrogate n then
              some (Char.ofNat (0x10000 + (m - 0xD800) * 0x400 + (n - 0xDC00)), rest)
            else none
        else none
      | _ => none
    else if IsLowSurrogate m then none
    else some (Char.ofNat m, rest)

/-- The character that begins the text, and the text behind it. -/
def readChar (text : List Char) : Option (Char × List Char) :=
  match text with
  | [] => none
  | c :: rest =>
    if c = '\\' then
      match rest with
      | [] => none
      | e :: more =>
        if e = 'u' then readNumbered more
        else (shortEscapes.lookup e).map fun c => (c, more)
    else if c.toNat < 32 then none
    else some (c, rest)

/-- The text up to the next quote, and what is behind the quote. -/
def readBody : Nat → List Char → Option (List Char × List Char)
  | 0, _ => none
  | _, [] => none
  | fuel + 1, c :: rest =>
    if c = '"' then some ([], rest)
    else
      match readChar (c :: rest) with
      | none => none
      | some (char, more) => (readBody fuel more).map fun (chars, rest) => (char :: chars, rest)

/-- Four hexadecimal digits are read as their value, whatever follows. -/
theorem readUnit_of_spells {digits : List Char} {n : Nat} (h : SpellsUnit digits n)
    (rest : List Char) : readUnit (digits ++ rest) = some (n, rest) := by
  cases h with
  | four ha hb hc hd =>
    simp only [List.cons_append, List.nil_append, readUnit, ha, hb, hc, hd]

/-- No spelling of a character begins with a quote. -/
theorem head_of_spellsChar {text : List Char} {char : Char} (h : SpellsChar text char) :
    ∃ c rest, text = c :: rest ∧ c ≠ '"' := by
  cases h with
  | plain hcontrol hquote hbackslash => exact ⟨char, [], rfl, hquote⟩
  | short h => exact ⟨_, _, rfl, by decide⟩
  | unit h hhigh hlow => exact ⟨_, _, rfl, by decide⟩
  | pair hm hhigh hn hlow => exact ⟨_, _, rfl, by decide⟩

/-- A character between quotes is read as what it spells, whatever follows. -/
theorem readChar_of_spells {text : List Char} {char : Char} (h : SpellsChar text char)
    (rest : List Char) : readChar (text ++ rest) = some (char, rest) := by
  cases h with
  | plain hcontrol hquote hbackslash =>
    show (if char = '\\' then _ else if char.toNat < 32 then none else some (char, rest)) = _
    rw [if_neg hbackslash, if_neg (Nat.not_lt.mpr hcontrol)]
  | short h =>
    rename_i e
    -- No short escape is a numbered one, and each letter has one row.
    have hrows : ∀ row ∈ shortEscapes, row.1 ≠ 'u' ∧ shortEscapes.lookup row.1 = some row.2 := by
      decide
    obtain ⟨hu, hlookup⟩ := hrows (e, char) h
    show (if e = 'u' then readNumbered rest else (shortEscapes.lookup e).map fun c => (c, rest)) = _
    rw [if_neg hu, hlookup]
    rfl
  | unit h hhigh hlow =>
    rename_i digits n
    show readNumbered (digits ++ rest) = _
    unfold readNumbered
    rw [readUnit_of_spells h]
    simp only
    rw [if_neg hhigh, if_neg hlow]
  | pair hm hhigh hn hlow =>
    rename_i high low m n
    show readNumbered ((high ++ '\\' :: 'u' :: low) ++ rest) = _
    unfold readNumbered
    rw [List.append_assoc, readUnit_of_spells hm]
    simp only [List.cons_append]
    rw [if_pos hhigh, if_pos ⟨trivial, trivial⟩, readUnit_of_spells hn]
    simp only
    rw [if_pos hlow]

/-- A text between quotes is read up to the second one. -/
theorem readBody_of_spells {body chars : List Char} (h : SpellsText body chars) :
    ∀ {fuel : Nat}, body.length < fuel → ∀ rest : List Char,
      readBody fuel (body ++ '"' :: rest) = some (chars, rest) := by
  induction h with
  | nil =>
    intro fuel hfuel rest
    obtain ⟨fuel, rfl⟩ := Nat.exists_eq_add_one_of_ne_zero (Nat.ne_of_gt hfuel)
    rfl
  | cons hfront hback ih =>
    rename_i front back text char
    intro fuel hfuel rest
    obtain ⟨fuel, rfl⟩ := Nat.exists_eq_add_one_of_ne_zero (Nat.ne_of_gt (Nat.zero_lt_of_lt hfuel))
    -- The reader looks for the quote that ends the text before it reads a character.
    obtain ⟨c, tail, rfl, hquote⟩ := head_of_spellsChar hfront
    have hread : readChar ((c :: tail) ++ (back ++ '"' :: rest))
        = some (char, back ++ '"' :: rest) := readChar_of_spells hfront _
    have hshort : back.length < fuel := by
      simp only [List.length_append, List.length_cons] at hfuel
      omega
    rw [List.append_assoc]
    rw [List.cons_append] at hread ⊢
    rw [readBody, if_neg hquote, hread]
    simp only
    rw [ih hshort rest]
    rfl

example : readBody 13 ['\\', 'u', 'd', '8', '3', 'D', '\\', 'u', 'D', 'e', '0', '0', '"']
    = some ([Char.ofNat 0x1F600], []) := by decide +kernel

/-! ### Values -/

/-- The characters of numbers and of `null`, `true` and `false`. -/
def isBare (c : Char) : Bool :=
  c.isAlphanum || c = '+' || c = '-' || c = '.'

/-- The value that a run of such characters is, if it is one. -/
def readBare (run : List Char) : Option JsonValue :=
  if run = ['n', 'u', 'l', 'l'] then some .null
  else if run = ['t', 'r', 'u', 'e'] then some (.bool true)
  else if run = ['f', 'a', 'l', 's', 'e'] then some (.bool false)
  else (readNumber run).map .number

/-- The text behind the first character, if it is this one. -/
def expect (c : Char) (text : List Char) : Option (List Char) :=
  match text with
  | [] => none
  | d :: rest => if d = c then some rest else none

mutual

/-- The value that begins the text, and the text behind it. -/
def readValue : Nat → List Char → Option (JsonValue × List Char)
  | 0, _ => none
  | _, [] => none
  | fuel + 1, c :: rest =>
    if c = '"' then
      (readBody fuel rest).map fun (chars, rest) => (.text (String.ofList chars), rest)
    else if c = '[' then
      match expect ']' (skipBlank rest) with
      | some rest => some (.list [], rest)
      | none => (readItems fuel rest).map fun (vs, rest) => (.list vs, rest)
    else if c = '{' then
      match expect '}' (skipBlank rest) with
      | some rest => some (.object [], rest)
      | none => (readFields fuel rest).map fun (fs, rest) => (.object fs, rest)
    else
      (readBare ((c :: rest).takeWhile isBare)).map fun v => (v, (c :: rest).dropWhile isBare)

/-- The items of a list up to its bracket, and the text behind this. -/
def readItems : Nat → List Char → Option (List JsonValue × List Char)
  | 0, _ => none
  | fuel + 1, text =>
    match readValue fuel (skipBlank text) with
    | none => none
    | some (v, rest) =>
      match expect ',' (skipBlank rest) with
      | some more => (readItems fuel more).map fun (vs, rest) => (v :: vs, rest)
      | none => (expect ']' (skipBlank rest)).map fun rest => ([v], rest)

/-- The fields of an object up to its brace, and the text behind this. -/
def readFields : Nat → List Char → Option (List (String × JsonValue) × List Char)
  | 0, _ => none
  | fuel + 1, text =>
    match expect '"' (skipBlank text) with
    | none => none
    | some body =>
      match readBody fuel body with
      | none => none
      | some (chars, rest) =>
        match expect ':' (skipBlank rest) with
        | none => none
        | some start =>
          match readValue fuel (skipBlank start) with
          | none => none
          | some (v, rest) =>
            match expect ',' (skipBlank rest) with
            | some more =>
              (readFields fuel more).map fun (fs, rest) => ((String.ofList chars, v) :: fs, rest)
            | none =>
              (expect '}' (skipBlank rest)).map fun rest => ([(String.ofList chars, v)], rest)

end

/-- The value that a text is JSON for, if it is JSON. -/
def read (text : List Char) : Option JsonValue :=
  match readValue (text.length + 1) (skipBlank text) with
  | some (v, rest) => if skipBlank rest = [] then some v else none
  | none => none

/-- What it means that the reader reads a part of a text: whatever comes behind the part, it
finds what the part stands for and leaves the rest. A list or an object is read up to the
sign that closes it. -/
def Reads (text : List Char) : Part → Prop
  | .value v => ∀ fuel, text.length ≤ fuel → ∀ rest, StopsAt isBare rest →
      readValue fuel (text ++ rest) = some (v, rest)
  | .items vs => ∀ fuel, text.length < fuel → ∀ rest,
      readItems fuel (text ++ ']' :: rest) = some (vs, rest)
  | .fields fs => ∀ fuel, text.length < fuel → ∀ rest,
      readFields fuel (text ++ '}' :: rest) = some (fs, rest)

/-! ### Where values end -/

/-- A digit can stand outside quotes. -/
theorem isBare_of_isDigit {c : Char} (h : c.isDigit = true) : isBare c = true := by
  simp [isBare, Char.isAlphanum, h]

/-- White space cannot go on with a number. -/
theorem isBare_of_isBlank {c : Char} (h : isBlank c = true) : isBare c = false := by
  simp only [isBlank, Bool.or_eq_true, decide_eq_true_eq] at h
  rcases h with ((rfl | rfl) | rfl) | rfl
  · rfl
  · rfl
  · rfl
  · rfl

/-- A value ends in front of white space and in front of a sign that is none of its own. -/
theorem stopsAt_blank {blank : List Char} (hblank : IsBlankText blank) {c : Char}
    (hc : isBare c = false) (rest : List Char) : StopsAt isBare (blank ++ c :: rest) := by
  cases blank with
  | nil => exact stopsAt_cons hc rest
  | cons d blank => exact stopsAt_cons (isBare_of_isBlank (hblank d List.mem_cons_self)) _

/-- Every character of an exponent can stand outside quotes. -/
theorem isBare_of_spellsExponent {text : List Char} {e : Int} (h : SpellsExponent text e) :
    ∀ c ∈ text, isBare c = true := by
  have hletter : ∀ {c : Char}, c = 'e' ∨ c = 'E' → isBare c = true := by
    rintro c (rfl | rfl)
    · rfl
    · rfl
  have hdigits : ∀ {digits : List Char}, IsDigits digits → ∀ c ∈ digits, isBare c = true :=
    fun hall c hc => isBare_of_isDigit (hall.2 c hc)
  cases h with
  | none => exact nofun
  | bare he h => exact List.forall_mem_cons.mpr ⟨hletter he, hdigits h⟩
  | plus he h =>
    exact List.forall_mem_cons.mpr ⟨hletter he, List.forall_mem_cons.mpr ⟨rfl, hdigits h⟩⟩
  | minus he h =>
    exact List.forall_mem_cons.mpr ⟨hletter he, List.forall_mem_cons.mpr ⟨rfl, hdigits h⟩⟩

/-- So can every character of a number without a sign. -/
theorem isBare_of_spellsUnsigned {text : List Char} {m : Nat} {e : Int}
    (h : SpellsUnsigned text m e) : ∀ c ∈ text, isBare c = true := by
  cases h with
  | parts hwhole hfraction hexponent =>
    rename_i whole fraction digits exponent e
    intro c hc
    rcases List.mem_append.mp hc with hc | hc
    · exact isBare_of_isDigit (hwhole.1.2 c hc)
    · rcases List.mem_append.mp hc with hc | hc
      · cases hfraction with
        | none => cases hc
        | some hdigits =>
          rcases List.mem_cons.mp hc with rfl | hc
          · rfl
          · exact isBare_of_isDigit (hdigits.2 c hc)
      · exact isBare_of_spellsExponent hexponent c hc

/-- So can every character of a number. -/
theorem isBare_of_spellsNumber {text : List Char} {n : JsonNumber} (h : SpellsNumber text n) :
    ∀ c ∈ text, isBare c = true := by
  cases h with
  | positive h => exact isBare_of_spellsUnsigned h
  | negative h => exact List.forall_mem_cons.mpr ⟨rfl, isBare_of_spellsUnsigned h⟩

/-- A number begins with a digit or a minus. -/
theorem head_of_spellsNumber {text : List Char} {n : JsonNumber} (h : SpellsNumber text n) :
    ∃ c rest, text = c :: rest ∧ (c.isDigit = true ∨ c = '-') := by
  cases h with
  | positive h =>
    obtain ⟨c, rest, rfl, hdigit⟩ := head_of_spellsUnsigned h
    exact ⟨c, rest, rfl, Or.inl hdigit⟩
  | negative h => exact ⟨_, _, rfl, Or.inr rfl⟩

/-- A number is told from the words and read as what it spells. -/
theorem readBare_of_spellsNumber {text : List Char} {n : JsonNumber} (h : SpellsNumber text n) :
    readBare text = some (.number n) := by
  obtain ⟨c, rest, rfl, hc⟩ := head_of_spellsNumber h
  have hword : ∀ d word, d.isDigit = false → d ≠ '-' → c :: rest ≠ d :: word := by
    intro d word hd hminus heq
    cases heq
    rcases hc with hdigit | rfl
    · rw [hd] at hdigit
      cases hdigit
    · exact hminus rfl
  unfold readBare
  rw [if_neg (hword 'n' _ rfl (by decide)), if_neg (hword 't' _ rfl (by decide)),
    if_neg (hword 'f' _ rfl (by decide)), readNumber_of_spells h]
  rfl

/-- A run of bare characters is read as a whole. -/
theorem reads_bare {run : List Char} {v : JsonValue} (hne : run ≠ [])
    (hrun : ∀ c ∈ run, isBare c = true) (hread : readBare run = some v) :
    Reads run (.value v) := by
  intro fuel hfuel rest hrest
  obtain ⟨c, tail, rfl⟩ := List.exists_cons_of_ne_nil hne
  obtain ⟨fuel, rfl⟩ := Nat.exists_eq_add_one_of_ne_zero
    (Nat.ne_of_gt (Nat.lt_of_lt_of_le (Nat.zero_lt_succ _) hfuel))
  have hc : isBare c = true := hrun c List.mem_cons_self
  have hnot : ∀ d, isBare d = false → c ≠ d := by
    rintro d hd rfl
    rw [hc] at hd
    cases hd
  rw [List.cons_append, readValue, if_neg (hnot _ rfl), if_neg (hnot _ rfl),
    if_neg (hnot _ rfl), ← List.cons_append, takeWhile_append hrun hrest,
    dropWhile_append hrun hrest, hread]
  rfl

/-- A value begins with a character that is neither white space nor a closing bracket. -/
theorem head_of_value {text : List Char} {v : JsonValue} (h : Spells text (.value v)) :
    ∃ c rest, text = c :: rest ∧ isBlank c = false ∧ c ≠ ']' := by
  cases h with
  | null => exact ⟨_, _, rfl, rfl, by decide⟩
  | true => exact ⟨_, _, rfl, rfl, by decide⟩
  | false => exact ⟨_, _, rfl, rfl, by decide⟩
  | text h => exact ⟨_, _, rfl, rfl, by decide⟩
  | emptyList h => exact ⟨_, _, rfl, rfl, by decide⟩
  | list h => exact ⟨_, _, rfl, rfl, by decide⟩
  | emptyObject h => exact ⟨_, _, rfl, rfl, by decide⟩
  | object h => exact ⟨_, _, rfl, rfl, by decide⟩
  | number h =>
    obtain ⟨c, rest, rfl, -⟩ := head_of_spellsNumber h
    have hc : isBare c = true := isBare_of_spellsNumber h c List.mem_cons_self
    refine ⟨c, rest, rfl, ?_, ?_⟩
    · by_contra hblank
      rw [isBare_of_isBlank (by simpa using hblank)] at hc
      cases hc
    · rintro rfl
      cases hc

/-- White space in front of a value is stepped over up to the value. -/
theorem skipBlank_value {blank text : List Char} {v : JsonValue} (hblank : IsBlankText blank)
    (h : Spells text (.value v)) (rest : List Char) :
    skipBlank (blank ++ (text ++ rest)) = text ++ rest := by
  obtain ⟨c, tail, rfl, hc, -⟩ := head_of_value h
  exact skipBlank_append hblank (stopsAt_cons hc _)

/-- A sign of punctuation is found behind white space, and no other one is. -/
theorem expect_blank {blank : List Char} (hblank : IsBlankText blank) {c : Char}
    (hc : isBlank c = false) (rest : List Char) :
    expect c (skipBlank (blank ++ c :: rest)) = some rest ∧
      ∀ d, d ≠ c → expect d (skipBlank (blank ++ c :: rest)) = none := by
  rw [skipBlank_append hblank (stopsAt_cons hc rest)]
  refine ⟨if_pos rfl, fun d hd => if_neg hd.symm⟩

/-- A list that has items does not end at once. -/
theorem expect_bracket_items {body : List Char} {vs : List JsonValue}
    (h : Spells body (.items vs)) (rest : List Char) :
    expect ']' (skipBlank (body ++ rest)) = none := by
  have hvalue : ∀ {blank text : List Char} {v : JsonValue}, IsBlankText blank →
      Spells text (.value v) → ∀ tail : List Char,
        expect ']' (skipBlank (blank ++ (text ++ tail))) = none := by
    intro blank text v hblank hv tail
    rw [skipBlank_value hblank hv]
    obtain ⟨c, more, rfl, -, hc⟩ := head_of_value hv
    exact if_neg hc
  cases h with
  | lastItem hbefore h hafter =>
    rw [List.append_assoc, List.append_assoc]
    exact hvalue hbefore h _
  | item hbefore h hafter hmore =>
    rw [List.append_assoc, List.append_assoc]
    exact hvalue hbefore h _

/-- An object that has fields does not end at once. -/
theorem expect_brace_fields {body : List Char} {fs : List (String × JsonValue)}
    (h : Spells body (.fields fs)) (rest : List Char) :
    expect '}' (skipBlank (body ++ rest)) = none := by
  cases h with
  | lastField hbefore hname hcolon hstart h hafter =>
    rw [List.append_assoc]
    exact (expect_blank hbefore rfl _).2 _ (by decide)
  | field hbefore hname hcolon hstart h hafter hmore =>
    rw [List.append_assoc]
    exact (expect_blank hbefore rfl _).2 _ (by decide)

/-! ### Everything is read -/

/-- An item is read up to its end. What comes behind says whether there are more. -/
theorem readItems_item {before text rest : List Char} {v : JsonValue} {fuel : Nat}
    (hbefore : IsBlankText before) (h : Spells text (.value v))
    (hvalue : readValue fuel (text ++ rest) = some (v, rest)) :
    readItems (fuel + 1) (before ++ (text ++ rest)) =
      match expect ',' (skipBlank rest) with
      | some more => (readItems fuel more).map fun (vs, rest) => (v :: vs, rest)
      | none => (expect ']' (skipBlank rest)).map fun rest => ([v], rest) := by
  rw [readItems, skipBlank_value hbefore h, hvalue]

/-- A field is read up to the end of its value. What comes behind says whether there are
more. -/
theorem readFields_field {before name chars colon start text rest : List Char} {v : JsonValue}
    {fuel : Nat} (hbefore : IsBlankText before) (hname : SpellsText name chars)
    (hcolon : IsBlankText colon) (hstart : IsBlankText start) (h : Spells text (.value v))
    (hfuel : name.length < fuel) (hvalue : readValue fuel (text ++ rest) = some (v, rest)) :
    readFields (fuel + 1)
        (before ++ '"' :: (name ++ '"' :: (colon ++ ':' :: (start ++ (text ++ rest))))) =
      match expect ',' (skipBlank rest) with
      | some more =>
        (readFields fuel more).map fun (fs, rest) => ((String.ofList chars, v) :: fs, rest)
      | none =>
        (expect '}' (skipBlank rest)).map fun rest => ([(String.ofList chars, v)], rest) := by
  rw [readFields, (expect_blank hbefore rfl _).1]
  simp only
  rw [readBody_of_spells hname hfuel]
  simp only
  rw [(expect_blank hcolon rfl _).1]
  simp only
  rw [skipBlank_value hstart h, hvalue]

/-- A text that ends in a sign takes fuel. -/
theorem exists_fuel {n fuel : Nat} (h : n < fuel) : ∃ left, fuel = left + 1 ∧ n ≤ left :=
  ⟨fuel - 1, by omega, by omega⟩

/-- Each part of a text is read, whatever comes behind it. The induction is on how the part
is written; the fuel that is left is enough for the parts of the part, since these are
shorter. -/
theorem reads_of_spells {text : List Char} {part : Part} (h : Spells text part) :
    Reads text part := by
  induction h with
  | null => exact reads_bare (List.cons_ne_nil _ _) (List.all_eq_true.mp rfl) rfl
  | true => exact reads_bare (List.cons_ne_nil _ _) (List.all_eq_true.mp rfl) rfl
  | false => exact reads_bare (List.cons_ne_nil _ _) (List.all_eq_true.mp rfl) rfl
  | number h =>
    obtain ⟨c, rest, hcons, -⟩ := head_of_spellsNumber h
    have hne := hcons ▸ List.cons_ne_nil c rest
    exact reads_bare hne (isBare_of_spellsNumber h) (readBare_of_spellsNumber h)
  | text h =>
    intro fuel hfuel rest hrest
    obtain ⟨left, rfl, hleft⟩ := exists_fuel hfuel
    have hbody := readBody_of_spells h (Nat.lt_of_lt_of_le (by simp) hleft) rest
    rw [List.cons_append, List.append_assoc, List.singleton_append, readValue, if_pos rfl, hbody]
    rfl
  -- Behind the bracket a sign decides whether there is anything to read.
  | emptyList h =>
    intro fuel hfuel rest hrest
    obtain ⟨left, rfl, -⟩ := exists_fuel hfuel
    rw [List.cons_append, List.append_assoc, List.singleton_append, readValue,
      if_neg (by decide), if_pos rfl, (expect_blank h rfl rest).1]
  | list h ih =>
    intro fuel hfuel rest hrest
    obtain ⟨left, rfl, hleft⟩ := exists_fuel hfuel
    have hitems := ih left (Nat.lt_of_lt_of_le (by simp) hleft) rest
    rw [List.cons_append, List.append_assoc, List.singleton_append, readValue,
      if_neg (by decide), if_pos rfl, expect_bracket_items h, hitems]
    rfl
  | emptyObject h =>
    intro fuel hfuel rest hrest
    obtain ⟨left, rfl, -⟩ := exists_fuel hfuel
    rw [List.cons_append, List.append_assoc, List.singleton_append, readValue,
      if_neg (by decide), if_neg (by decide), if_pos rfl, (expect_blank h rfl rest).1]
  | object h ih =>
    intro fuel hfuel rest hrest
    obtain ⟨left, rfl, hleft⟩ := exists_fuel hfuel
    have hfields := ih left (Nat.lt_of_lt_of_le (by simp) hleft) rest
    rw [List.cons_append, List.append_assoc, List.singleton_append, readValue,
      if_neg (by decide), if_neg (by decide), if_pos rfl, expect_brace_fields h, hfields]
    rfl
  -- White space and a sign end the value of an item, so it is read up to there. The sign is
  -- the closing one or a comma, and this says which way the reader takes.
  | lastItem hbefore h hafter ih =>
    intro fuel hfuel rest
    obtain ⟨left, rfl, hleft⟩ := exists_fuel hfuel
    simp only [List.length_append] at hleft
    have hvalue := ih left (by omega) _ (stopsAt_blank hafter (c := ']') rfl rest)
    obtain ⟨hbracket, hother⟩ := expect_blank hafter (c := ']') rfl rest
    rw [List.append_assoc, List.append_assoc, readItems_item hbefore h hvalue,
      hother ',' (by decide), hbracket]
    rfl
  | item hbefore h hafter hmore ih ihmore =>
    rename_i before text after more v vs
    intro fuel hfuel rest
    obtain ⟨left, rfl, hleft⟩ := exists_fuel hfuel
    simp only [List.length_append, List.length_cons] at hleft
    have hvalue := ih left (by omega) _ (stopsAt_blank hafter (c := ',') rfl (more ++ ']' :: rest))
    have hitems := ihmore left (by omega) rest
    simp only [List.append_assoc, List.cons_append]
    rw [readItems_item hbefore h hvalue, (expect_blank hafter rfl _).1]
    simp only
    rw [hitems]
    rfl
  | lastField hbefore hname hcolon hstart h hafter ih =>
    intro fuel hfuel rest
    obtain ⟨left, rfl, hleft⟩ := exists_fuel hfuel
    simp only [List.length_append, List.length_cons] at hleft
    have hvalue := ih left (by omega) _ (stopsAt_blank hafter (c := '}') rfl rest)
    obtain ⟨hbrace, hother⟩ := expect_blank hafter (c := '}') rfl rest
    simp only [List.append_assoc, List.cons_append]
    rw [readFields_field hbefore hname hcolon hstart h (by omega) hvalue,
      hother ',' (by decide), hbrace]
    rfl
  | field hbefore hname hcolon hstart h hafter hmore ih ihmore =>
    rename_i before name chars colon start text after more v fs
    intro fuel hfuel rest
    obtain ⟨left, rfl, hleft⟩ := exists_fuel hfuel
    simp only [List.length_append, List.length_cons] at hleft
    have hvalue := ih left (by omega) _ (stopsAt_blank hafter (c := ',') rfl (more ++ '}' :: rest))
    have hfields := ihmore left (by omega) rest
    simp only [List.append_assoc, List.cons_append]
    rw [readFields_field hbefore hname hcolon hstart h (by omega) hvalue,
      (expect_blank hafter rfl _).1]
    simp only
    rw [hfields]
    rfl

/-- The reader reads every document. -/
theorem read_of_isDocument {text : List Char} {v : JsonValue} (h : IsDocument text v) :
    read text = some v := by
  obtain ⟨before, value, after, hbefore, hvalue, hafter, rfl⟩ := h
  have hend : skipBlank after = [] := by
    rw [← List.append_nil after]
    exact skipBlank_append hafter (stopsAt_nil _)
  have hstop : StopsAt isBare after := by
    rintro c rest rfl
    exact isBare_of_isBlank (hafter c List.mem_cons_self)
  have hread : readValue ((before ++ (value ++ after)).length + 1) (value ++ after)
      = some (v, after) := by
    refine reads_of_spells hvalue _ ?_ after hstop
    simp only [List.length_append]
    omega
  unfold read
  rw [skipBlank_value hbefore hvalue, hread]
  exact if_pos hend

/-- No text is JSON for two values. -/
theorem IsDocument.unique {text : List Char} {v v' : JsonValue} (h : IsDocument text v)
    (h' : IsDocument text v') : v = v' := by
  have hread := read_of_isDocument h
  rw [read_of_isDocument h'] at hread
  exact (Option.some.inj hread).symm

end Unimported.JsonText
