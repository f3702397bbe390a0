import EventPolicy.Number.Numeral
import EventPolicy.Toml.Lexeme
import EventPolicy.Value

/-!
The scalars of a TOML document other than strings: dates, times, moments,
numbers and truth values. Fractions of a second beyond the microsecond are cut.
-/

namespace EventPolicy.Toml

open Number

/-- The largest number of digits of a decimal integer. -/
def maxIntegerDigits : Nat := 4300

/-- A number of exactly `width` decimal digits within bounds. -/
def readFixed (width least greatest : Nat) (text : List Char) : Option (Nat × List Char) :=
  let digits := text.take width
  let value := ofDigits 10 digits
  if digits.length = width ∧ digits.all (isDigitOf 10) ∧ least ≤ value ∧ value ≤ greatest then
    some (value, text.drop width)
  else none

/-- A number of exactly `width` decimal digits within bounds, after a character. -/
def readFixedAfter (c : Char) (width least greatest : Nat) (text : List Char) :
    Option (Nat × List Char) :=
  match text with
  | d :: rest => if d = c then readFixed width least greatest rest else none
  | [] => none

/-- The microseconds of a fraction of a second, if there is one. -/
def readFraction (text : List Char) : Nat × List Char :=
  match text with
  | '.' :: rest =>
    let digits := rest.takeWhile (isDigitOf 10)
    if digits.isEmpty then (0, text)
    else
      let kept := digits.take 6
      (ofDigits 10 kept * tenTo (6 - kept.length), rest.dropWhile (isDigitOf 10))
  | _ => (0, text)

def readTime (text : List Char) : Option (TimeOfDay × List Char) := do
  let (hour, rest) ← readFixed 2 0 23 text
  let (minute, rest) ← readFixedAfter ':' 2 0 59 rest
  let (second, rest) ← readFixedAfter ':' 2 0 59 rest
  let (microsecond, rest) := readFraction rest
  return (⟨hour, minute, second, microsecond⟩, rest)

/-- A date with a month from 1 to 12 and a day from 1 to 31, which need not be
a day of the calendar. -/
def readDate (text : List Char) : Option (Date × List Char) := do
  let (year, rest) ← readFixed 4 0 9999 text
  let (month, rest) ← readFixedAfter '-' 2 1 12 rest
  let (day, rest) ← readFixedAfter '-' 2 1 31 rest
  return (⟨year, month, day⟩, rest)

/-- An offset from universal time in minutes, if there is one. -/
def readOffset (text : List Char) : Option Int × List Char :=
  match text with
  | [] => (none, text)
  | c :: rest =>
    if c = 'Z' ∨ c = 'z' then (some 0, rest)
    else if c = '+' ∨ c = '-' then
      let size : Option (Nat × List Char) := do
        let (hours, rest) ← readFixed 2 0 23 rest
        let (minutes, rest) ← readFixedAfter ':' 2 0 59 rest
        return (hours * 60 + minutes, rest)
      match size with
      | some (minutes, after) =>
        (some (if c = '-' then -(minutes : Int) else minutes), after)
      | none => (none, text)
    else (none, text)

/-- The time of day after a date, with its offset, if there is one. -/
def readTimeAfterDate (text : List Char) : Option (TimeOfDay × Option Int × List Char) :=
  match text with
  | [] => none
  | c :: rest =>
    if c = 'T' ∨ c = 't' ∨ c = ' ' then do
      let (time, rest) ← readTime rest
      let (offset, rest) := readOffset rest
      return (time, offset, rest)
    else none

/-- A date or a moment at the start of the text. A date that is not in the
calendar makes the document malformed. -/
def readCalendar (text : List Char) : Option (Except Fault (Value × List Char)) := do
  let (date, rest) ← readDate text
  if date.isValid then
    match readTimeAfterDate rest with
    | some (time, offset, rest) => return .ok (.moment ⟨date, time, offset⟩, rest)
    | none => return .ok (.date date, rest)
  else return .error .malformed

/-- An integer with a mark for its base. -/
def readBased (text : List Char) : Option (Value × List Char) :=
  let digitsIn (base : Nat) (rest : List Char) : Option (Value × List Char) :=
    (someDigits base true rest).map fun (digits, after) => (.int (ofDigits base digits), after)
  match text with
  | '0' :: 'x' :: rest => digitsIn 16 rest
  | '0' :: 'b' :: rest => digitsIn 2 rest
  | '0' :: 'o' :: rest => digitsIn 8 rest
  | _ => none

def readSpecial (text : List Char) : Option (Value × List Char) :=
  let (negative, unsigned) := takeSign true text
  match Text.afterWord? "inf".toList unsigned with
  | some rest => some (.float (.infinite negative), rest)
  | none => (Text.afterWord? "nan".toList unsigned).map fun rest => (.float .nan, rest)

def readNumber (text : List Char) : Except Fault (Value × List Char) :=
  match readBased text with
  | some result => .ok result
  | none =>
    match takeNumeral ⟨true, true⟩ text with
    | some (.integer value digits, rest) =>
      if maxIntegerDigits < digits then .error (.longInteger digits) else .ok (.int value, rest)
    | some (.float value, rest) => .ok (.float value, rest)
    | none =>
      match readSpecial text with
      | some result => .ok result
      | none => .error .malformed

def readScalar (text : List Char) : Except Fault (Value × List Char) :=
  match Text.afterWord? "true".toList text with
  | some rest => .ok (.bool true, rest)
  | none =>
    match Text.afterWord? "false".toList text with
    | some rest => .ok (.bool false, rest)
    | none =>
      match readCalendar text with
      | some result => result
      | none =>
        match readTime text with
        | some (time, rest) => .ok (.time time, rest)
        | none => readNumber text

/-- The date, time or moment that a whole text writes. -/
def calendarOfText? (text : String) : Option Value :=
  match readCalendar text.toList with
  | some (.ok (value, [])) => some value
  | _ =>
    match readTime text.toList with
    | some (time, []) => some (.time time)
    | _ => none

end EventPolicy.Toml
