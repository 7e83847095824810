/-!
# `Unimported.Toml.Number`: numbers, dates and times

A configuration has no use for a number or a date, so none is given a value here: what
counts is whether it is written as one.

- `isInteger`, `isFloat` and `isMoment` say what a word is.
- An integer must fit into 64 bits with a sign, and a float must not be too great for a
  double; the least floats are not bounded.
-/

set_option autoImplicit false

namespace Unimported.Toml

/-! ### Digits -/

/-- The value of a digit in a base up to 16. -/
def digit? (base : Nat) (c : Char) : Option Nat :=
  let n :=
    if '0' ≤ c ∧ c ≤ '9' then c.toNat - 48
    else if 'a' ≤ c ∧ c ≤ 'f' then c.toNat - 87
    else if 'A' ≤ c ∧ c ≤ 'F' then c.toNat - 55
    else base
  if n < base then some n else none

/-- The values of digits with single underscores between them. -/
def digits? (base : Nat) : List Char → Option (List Nat)
  | [] => none
  | [c] => (digit? base c).map ([·])
  | c :: '_' :: rest => do return (← digit? base c) :: (← digits? base rest)
  | c :: rest => do return (← digit? base c) :: (← digits? base rest)

/-- The number that digits give. -/
def ofDigits (base : Nat) (digits : List Nat) : Nat :=
  digits.foldl (fun n d => n * base + d) 0

/-- The digits of a whole number in base ten, which has no zero in front. -/
def decimal? (word : List Char) : Option (List Nat) :=
  match digits? 10 word with
  | some (0 :: _ :: _) => none
  | other => other

/-- The sign of a word, and the word without it. -/
def unsigned : List Char → Bool × List Char
  | '+' :: rest => (false, rest)
  | '-' :: rest => (true, rest)
  | word => (false, word)

/-! ### Integers -/

/-- The least number that is too great for an integer. -/
def integerBound : Nat := Nat.pow 2 63

/-- Whether a word is an integer. -/
def isInteger (word : List Char) : Bool :=
  let below (bound : Nat) (base : Nat) (digits : Option (List Nat)) : Bool :=
    digits.any fun ds => ofDigits base ds < bound
  match word with
  | '0' :: 'x' :: rest => below integerBound 16 (digits? 16 rest)
  | '0' :: 'o' :: rest => below integerBound 8 (digits? 8 rest)
  | '0' :: 'b' :: rest => below integerBound 2 (digits? 2 rest)
  | _ =>
    let (negative, rest) := unsigned word
    below (if negative then integerBound + 1 else integerBound) 10 (decimal? rest)

/-! ### Floats -/

/-- The least number that is rounded to no finite double: half way from the greatest one
to the next power of two. -/
def floatBound : Nat := Nat.pow 2 1024 - Nat.pow 2 970

/-- Whether `mantissa` times ten to the power `up - down` rounds to a number beyond the
greatest double. -/
def isTooGreat (mantissa up down : Nat) : Bool :=
  let width := (Nat.toDigits 10 mantissa).length
  -- Far from the bound the number of digits decides, and no great power is needed.
  if mantissa = 0 then false
  else if width + up < down + 308 then false
  else if down + 310 < width + up then true
  else floatBound * Nat.pow 10 down ≤ mantissa * Nat.pow 10 up

/-- Whether a word is a float: a whole number with a fraction, an exponent or both, or a
name for no finite number. -/
def isFloat (word : List Char) : Bool :=
  let (negative, rest) := unsigned word
  if rest = "inf".toList ∨ rest = "nan".toList then true
  else
    let mantissa := rest.takeWhile fun c => c != 'e' && c != 'E'
    let exponent := rest.drop (mantissa.length + 1)
    let whole := mantissa.takeWhile (· != '.')
    let fraction := mantissa.drop (whole.length + 1)
    let hasExponent := mantissa.length < rest.length
    let hasFraction := whole.length < mantissa.length
    let (down, exponent) := unsigned exponent
    let exponentDigits := if hasExponent then digits? 10 exponent else some []
    let fractionDigits := if hasFraction then digits? 10 fraction else some []
    match decimal? whole, fractionDigits, exponentDigits with
    | some ws, some fs, some es =>
      let e := ofDigits 10 es
      -- A negative float is never refused for its size.
      (hasExponent || hasFraction) &&
        (negative ||
          !isTooGreat (ofDigits 10 (ws ++ fs)) (if down then 0 else e)
            (fs.length + if down then e else 0))
    | _, _, _ => false

/-! ### Dates and times -/

/-- The number that a word of `width` digits gives. -/
def field? (width : Nat) (word : List Char) : Option Nat :=
  if word.length = width ∧ word.all Char.isDigit then
    some (word.foldl (fun n c => n * 10 + (c.toNat - 48)) 0)
  else none

/-- The number of days of a month. -/
def daysIn (year month : Nat) : Nat :=
  if month = 2 then
    if year % 4 = 0 ∧ (year % 100 ≠ 0 ∨ year % 400 = 0) then 29 else 28
  else if month = 4 ∨ month = 6 ∨ month = 9 ∨ month = 11 then 30
  else 31

/-- Whether a word is a date. -/
def isDate (word : List Char) : Bool :=
  match word.splitOn '-' with
  | [y, m, d] =>
    match field? 4 y, field? 2 m, field? 2 d with
    | some y, some m, some d => 1 ≤ m && m ≤ 12 && 1 ≤ d && d ≤ daysIn y m
    | _, _, _ => false
  | _ => false

/-- Whether a word is an hour and a minute. -/
def isHourMinute (word : List Char) : Bool :=
  match word.splitOn ':' with
  | [h, m] => (field? 2 h).any (· ≤ 23) && (field? 2 m).any (· ≤ 59)
  | _ => false

/-- Whether a word is a time. A minute may have a leap second. -/
def isTime (word : List Char) : Bool :=
  let seconds := (word.drop 6).takeWhile (· != '.')
  let fraction := word.drop (6 + seconds.length)
  isHourMinute (word.take 5) && (word.drop 5).head? == some ':' &&
    (field? 2 seconds).any (· ≤ 60) &&
    (fraction == [] || (2 ≤ fraction.length && (fraction.drop 1).all Char.isDigit))

/-- Whether a word is a time, with or without its distance from the common one. -/
def isTimeWithOffset (word : List Char) : Bool :=
  let time := word.takeWhile fun c => c.isDigit || c == ':' || c == '.'
  isTime time &&
    match word.drop time.length with
    | [] => true
    | ['Z'] | ['z'] => true
    | '+' :: offset | '-' :: offset => isHourMinute offset
    | _ => false

/-- Whether a word is a date, a time, or both with a `T` between. -/
def isMoment (word : List Char) : Bool :=
  isDate word || isTime word ||
    (isDate (word.take 10) &&
      match word.drop 10 with
      | 'T' :: time | 't' :: time => isTimeWithOffset time
      | _ => false)

end Unimported.Toml
