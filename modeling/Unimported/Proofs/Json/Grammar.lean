import Mathlib.Data.List.Basic

/-!
# `Unimported.Proofs.Json.Grammar`: what a JSON text is

The grammar of JSON, production by production, as a relation between a text and the value
that it spells. It knows more than any one writer makes use of: white space of every kind
and in every place, all escapes with the pairs of surrogates among them, and numbers with a
fraction and an exponent. A text is taken as a whole, so nothing is left over behind it.

- `JsonValue` is what a text can spell. The fields of an object stand in their order, and
  a number is a whole number and a power of ten.
- `JsonText.SpellsChar` says how one character stands between quotes.
- `JsonText.SpellsNumber` says how a number is written.
- `JsonText.Spells` says how values, items of lists and fields of objects are written.
- `JsonText.IsDocument` is the relation for a whole text.
-/

set_option autoImplicit false

namespace Unimported

/-- A number as it is written in decimal: `mantissa` times ten to the power of
`exponent`. -/
structure JsonNumber where
  /-- The digits as a whole number, with the sign. -/
  mantissa : Int
  /-- Where the point stands. -/
  exponent : Int
deriving DecidableEq, Repr

/-- The value that a JSON text spells. -/
inductive JsonValue where
  /-- `null` -/
  | null
  /-- `true` and `false` -/
  | bool (value : Bool)
  /-- A number. -/
  | number (value : JsonNumber)
  /-- A text. -/
  | text (value : String)
  /-- A list. -/
  | list (items : List JsonValue)
  /-- An object with its fields in order. -/
  | object (fields : List (String × JsonValue))
deriving Repr

namespace JsonText

/-! ### White space -/

/-- The white space of JSON. -/
def isBlank (c : Char) : Bool :=
  c = ' ' || c = '\t' || c = '\n' || c = '\r'

/-- Text that can stand around every value and every sign of punctuation. -/
def IsBlankText (text : List Char) : Prop :=
  ∀ c ∈ text, isBlank c = true

/-! ### Texts -/

/-- The characters that may stand behind a backslash, and what they stand for there. -/
def shortEscapes : List (Char × Char) :=
  [('"', '"'), ('\\', '\\'), ('/', '/'), ('b', Char.ofNat 8), ('f', Char.ofNat 12),
    ('n', '\n'), ('r', '\r'), ('t', '\t')]

/-- The value of a hexadecimal digit, in either case. -/
def hexValue (c : Char) : Option Nat :=
  if '0' ≤ c ∧ c ≤ '9' then some (c.toNat - 48)
  else if 'a' ≤ c ∧ c ≤ 'f' then some (c.toNat - 87)
  else if 'A' ≤ c ∧ c ≤ 'F' then some (c.toNat - 55)
  else none

/-- Four hexadecimal digits with their value. -/
inductive SpellsUnit : List Char → Nat → Prop where
  /-- The first digit counts most. -/
  | four {a b c d : Char} {i j k l : Nat} (ha : hexValue a = some i) (hb : hexValue b = some j)
      (hc : hexValue c = some k) (hd : hexValue d = some l) :
      SpellsUnit [a, b, c, d] (((i * 16 + j) * 16 + k) * 16 + l)

/-- Whether a unit is the first one of a pair of surrogates. -/
def IsHighSurrogate (unit : Nat) : Prop := 0xD800 ≤ unit ∧ unit ≤ 0xDBFF

/-- Whether a unit is the second one of a pair of surrogates. -/
def IsLowSurrogate (unit : Nat) : Prop := 0xDC00 ≤ unit ∧ unit ≤ 0xDFFF

instance (unit : Nat) : Decidable (IsHighSurrogate unit) := inferInstanceAs (Decidable (_ ∧ _))

instance (unit : Nat) : Decidable (IsLowSurrogate unit) := inferInstanceAs (Decidable (_ ∧ _))

/-- How a character can stand between quotes. -/
inductive SpellsChar : List Char → Char → Prop where
  /-- As itself, unless it is a control character, a quote or a backslash. -/
  | plain {c : Char} (hcontrol : 32 ≤ c.toNat) (hquote : c ≠ '"') (hbackslash : c ≠ '\\') :
      SpellsChar [c] c
  /-- As a letter or a sign behind a backslash. -/
  | short {e c : Char} (h : (e, c) ∈ shortEscapes) : SpellsChar ['\\', e] c
  /-- By its number. -/
  | unit {digits : List Char} {n : Nat} (h : SpellsUnit digits n) (hhigh : ¬IsHighSurrogate n)
      (hlow : ¬IsLowSurrogate n) : SpellsChar ('\\' :: 'u' :: digits) (Char.ofNat n)
  /-- By the pair of surrogates that stands for it. -/
  | pair {high low : List Char} {m n : Nat} (hm : SpellsUnit high m) (hhigh : IsHighSurrogate m)
      (hn : SpellsUnit low n) (hlow : IsLowSurrogate n) :
      SpellsChar ('\\' :: 'u' :: (high ++ '\\' :: 'u' :: low))
        (Char.ofNat (0x10000 + (m - 0xD800) * 0x400 + (n - 0xDC00)))

/-- How a text can stand between quotes. -/
inductive SpellsText : List Char → List Char → Prop where
  /-- No character. -/
  | nil : SpellsText [] []
  /-- A character, then more. -/
  | cons {front back text : List Char} {c : Char} (hfront : SpellsChar front c)
      (hback : SpellsText back text) : SpellsText (front ++ back) (c :: text)

/-! ### Numbers -/

/-- One digit or more. -/
def IsDigits (text : List Char) : Prop :=
  text ≠ [] ∧ ∀ c ∈ text, c.isDigit = true

/-- The part of a number in front of the point, without a leading zero. -/
def IsWhole (text : List Char) : Prop :=
  IsDigits text ∧ (text.head? = some '0' → text = ['0'])

/-- The value of digits. -/
def valueOf (digits : List Char) : Nat :=
  Nat.ofDigitChars 10 digits 0

/-- The part of a number from the point on, with its digits. -/
inductive SpellsFraction : List Char → List Char → Prop where
  /-- No point, and no digit behind it. -/
  | none : SpellsFraction [] []
  /-- The point and digits. -/
  | some {digits : List Char} (h : IsDigits digits) : SpellsFraction ('.' :: digits) digits

/-- The exponent of a number. -/
inductive SpellsExponent : List Char → Int → Prop where
  /-- No exponent. -/
  | none : SpellsExponent [] 0
  /-- An exponent without a sign. -/
  | bare {e : Char} {digits : List Char} (he : e = 'e' ∨ e = 'E') (h : IsDigits digits) :
      SpellsExponent (e :: digits) (valueOf digits)
  /-- An exponent with a plus. -/
  | plus {e : Char} {digits : List Char} (he : e = 'e' ∨ e = 'E') (h : IsDigits digits) :
      SpellsExponent (e :: '+' :: digits) (valueOf digits)
  /-- An exponent with a minus. -/
  | minus {e : Char} {digits : List Char} (he : e = 'e' ∨ e = 'E') (h : IsDigits digits) :
      SpellsExponent (e :: '-' :: digits) (-valueOf digits)

/-- How a number without a sign is written. The digits behind the point go into the
mantissa, and the exponent makes up for them. -/
inductive SpellsUnsigned : List Char → Nat → Int → Prop where
  /-- All three parts, the last two of which can be missing. -/
  | parts {whole fraction digits exponent : List Char} {e : Int} (hwhole : IsWhole whole)
      (hfraction : SpellsFraction fraction digits) (hexponent : SpellsExponent exponent e) :
      SpellsUnsigned (whole ++ (fraction ++ exponent)) (valueOf (whole ++ digits))
        (e - digits.length)

/-- How a number is written. -/
inductive SpellsNumber : List Char → JsonNumber → Prop where
  /-- Without a sign. -/
  | positive {text : List Char} {m : Nat} {e : Int} (h : SpellsUnsigned text m e) :
      SpellsNumber text ⟨m, e⟩
  /-- With a minus. -/
  | negative {text : List Char} {m : Nat} {e : Int} (h : SpellsUnsigned text m e) :
      SpellsNumber ('-' :: text) ⟨-m, e⟩

/-! ### Values -/

/-- What a part of a JSON text stands for. -/
inductive Part where
  /-- A value. -/
  | value (v : JsonValue)
  /-- What stands between the brackets of a list that has items. -/
  | items (vs : List JsonValue)
  /-- What stands between the braces of an object that has fields. -/
  | fields (fs : List (String × JsonValue))

/-- How the parts of a JSON text are written. Values have no white space around them here;
it belongs to what is around the value. -/
inductive Spells : List Char → Part → Prop where
  /-- `null` -/
  | null : Spells ['n', 'u', 'l', 'l'] (.value .null)
  /-- `true` -/
  | true : Spells ['t', 'r', 'u', 'e'] (.value (.bool true))
  /-- `false` -/
  | false : Spells ['f', 'a', 'l', 's', 'e'] (.value (.bool false))
  /-- A number. -/
  | number {text : List Char} {n : JsonNumber} (h : SpellsNumber text n) :
      Spells text (.value (.number n))
  /-- A text between quotes. -/
  | text {body chars : List Char} (h : SpellsText body chars) :
      Spells ('"' :: (body ++ ['"'])) (.value (.text (String.ofList chars)))
  /-- A list without items. -/
  | emptyList {blank : List Char} (h : IsBlankText blank) :
      Spells ('[' :: (blank ++ [']'])) (.value (.list []))
  /-- A list with items. -/
  | list {body : List Char} {vs : List JsonValue} (h : Spells body (.items vs)) :
      Spells ('[' :: (body ++ [']'])) (.value (.list vs))
  /-- An object without fields. -/
  | emptyObject {blank : List Char} (h : IsBlankText blank) :
      Spells ('{' :: (blank ++ ['}'])) (.value (.object []))
  /-- An object with fields. -/
  | object {body : List Char} {fs : List (String × JsonValue)} (h : Spells body (.fields fs)) :
      Spells ('{' :: (body ++ ['}'])) (.value (.object fs))
  /-- The last item of a list. -/
  | lastItem {before text after : List Char} {v : JsonValue} (hbefore : IsBlankText before)
      (h : Spells text (.value v)) (hafter : IsBlankText after) :
      Spells (before ++ (text ++ after)) (.items [v])
  /-- An item of a list, and more of them behind a comma. -/
  | item {before text after more : List Char} {v : JsonValue} {vs : List JsonValue}
      (hbefore : IsBlankText before) (h : Spells text (.value v)) (hafter : IsBlankText after)
      (hmore : Spells more (.items vs)) :
      Spells (before ++ (text ++ (after ++ ',' :: more))) (.items (v :: vs))
  /-- The last field of an object. -/
  | lastField {before name chars colon start text after : List Char} {v : JsonValue}
      (hbefore : IsBlankText before) (hname : SpellsText name chars) (hcolon : IsBlankText colon)
      (hstart : IsBlankText start) (h : Spells text (.value v)) (hafter : IsBlankText after) :
      Spells (before ++ '"' :: (name ++ '"' :: (colon ++ ':' :: (start ++ (text ++ after)))))
        (.fields [(String.ofList chars, v)])
  /-- A field of an object, and more of them behind a comma. -/
  | field {before name chars colon start text after more : List Char} {v : JsonValue}
      {fs : List (String × JsonValue)} (hbefore : IsBlankText before)
      (hname : SpellsText name chars) (hcolon : IsBlankText colon) (hstart : IsBlankText start)
      (h : Spells text (.value v)) (hafter : IsBlankText after)
      (hmore : Spells more (.fields fs)) :
      Spells (before ++ '"' :: (name ++ '"' :: (colon ++ ':' ::
        (start ++ (text ++ (after ++ ',' :: more)))))) (.fields ((String.ofList chars, v) :: fs))

/-- Whether a text as a whole is JSON for this value. -/
def IsDocument (text : List Char) (v : JsonValue) : Prop :=
  ∃ before value after, IsBlankText before ∧ Spells value (.value v) ∧ IsBlankText after ∧
    text = before ++ (value ++ after)

end JsonText

end Unimported
