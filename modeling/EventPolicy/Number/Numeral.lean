import EventPolicy.Number.Binary64
import EventPolicy.Number.Digits

/-!
Numerals in a text: a sign, a whole part without leading zeros, and
optionally a fraction and an exponent, which make it a floating-point number.
A style says whether a plus sign and underscores between digits are allowed.
-/

namespace EventPolicy.Number

/-- What a numeral may hold besides digits. -/
structure NumeralStyle where
  plusSign : Bool
  underscores : Bool
  deriving DecidableEq, Repr

/-- A number that has been read. An integer keeps how many digits it was
written with, because readers limit their number. -/
inductive Numeral where
  | integer (value : Int) (digits : Nat)
  | float (value : Binary64)
  deriving DecidableEq, Repr

/-- The digits that follow a digit and the rest of the text. An underscore is
passed over only between two digits; `pending` tells that one has been seen
whose digit is still owed. -/
def moreDigits (base : Nat) (underscores : Bool) (pending : Bool) :
    List Char → List Char × List Char
  | [] => ([], if pending then ['_'] else [])
  | c :: rest =>
    if isDigitOf base c then
      let (digits, after) := moreDigits base underscores false rest
      (c :: digits, after)
    else if underscores && !pending && c == '_' then moreDigits base underscores true rest
    else ([], if pending then '_' :: c :: rest else c :: rest)

/-- One digit or more at the start of the text, and the rest. -/
def someDigits (base : Nat) (underscores : Bool) (text : List Char) :
    Option (List Char × List Char) :=
  match text with
  | [] => none
  | c :: rest =>
    if isDigitOf base c then
      let (digits, after) := moreDigits base underscores false rest
      some (c :: digits, after)
    else none

/-- The sign at the start of the text: whether it is a minus, and the rest. -/
def takeSign (plusSign : Bool) : List Char → Bool × List Char
  | '-' :: rest => (true, rest)
  | '+' :: rest => if plusSign then (false, rest) else (false, '+' :: rest)
  | text => (false, text)

/-- The whole part of a numeral: a single zero or digits that start otherwise. -/
def takeWhole (underscores : Bool) (text : List Char) : Option (List Char × List Char) :=
  match text with
  | '0' :: rest => some (['0'], rest)
  | _ => someDigits 10 underscores text

/-- The digits of a fraction and the rest; no digits if there is no fraction. -/
def takeFraction (underscores : Bool) (text : List Char) : List Char × List Char :=
  match text with
  | '.' :: rest => (someDigits 10 underscores rest).getD ([], text)
  | _ => ([], text)

/-- The exponent, if there is one, and the rest. -/
def takeExponent (underscores : Bool) (text : List Char) : Option Int × List Char :=
  match text with
  | [] => (none, text)
  | mark :: rest =>
    if mark = 'e' ∨ mark = 'E' then
      let (negative, unsigned) := takeSign true rest
      match someDigits 10 underscores unsigned with
      | none => (none, text)
      | some (digits, after) =>
        let size : Int := ofDigits 10 digits
        (some (if negative then -size else size), after)
    else (none, text)

/-- The numeral at the start of the text and the rest. -/
def takeNumeral (style : NumeralStyle) (text : List Char) : Option (Numeral × List Char) := do
  let (negative, unsigned) := takeSign style.plusSign text
  let (whole, afterWhole) ← takeWhole style.underscores unsigned
  let (fraction, afterFraction) := takeFraction style.underscores afterWhole
  let (exponent, after) := takeExponent style.underscores afterFraction
  if fraction.isEmpty ∧ exponent = none then
    let size : Int := ofDigits 10 whole
    return (.integer (if negative then -size else size) whole.length, after)
  else
    let digits := ofDigits 10 (whole ++ fraction)
    return (.float (.ofScaled negative digits (exponent.getD 0 - fraction.length)), after)

/-- The floating-point number that a whole text writes, in the form in which
`Binary64.text` writes it. -/
def Binary64.ofText? (text : String) : Option Binary64 :=
  match text with
  | "nan" => some .nan
  | "inf" => some (.infinite false)
  | "-inf" => some (.infinite true)
  | _ =>
    match takeNumeral ⟨false, false⟩ text.toList with
    | some (.float value, []) => some value
    | _ => none

/-- Reading digits loses nothing when underscores are not allowed. -/
theorem moreDigits_append (base : Nat) (text : List Char) :
    (moreDigits base false false text).1 ++ (moreDigits base false false text).2 = text := by
  induction text with
  | nil => rfl
  | cons c rest ih =>
    by_cases digit : isDigitOf base c = true
    · simp [moreDigits, digit, ih]
    · simp [moreDigits, digit]

end EventPolicy.Number
