import EventPolicy.Number.Digits

/-!
Dates, times of day and moments. A moment is a date and a time of day, with
or without an offset from universal time. Each has a standard text with `-`
and `:` and a descriptive text that names its kind and its parts.
-/

namespace EventPolicy

open Number

/-- A day of the calendar. -/
structure Date where
  year : Nat
  month : Nat
  day : Nat
  deriving DecidableEq, Repr

/-- A time of day to the microsecond. -/
structure TimeOfDay where
  hour : Nat
  minute : Nat
  second : Nat
  microsecond : Nat
  deriving DecidableEq, Repr

/-- A date and a time of day, with the offset from universal time in minutes
if it is known. -/
structure Moment where
  date : Date
  time : TimeOfDay
  offset : Option Int
  deriving DecidableEq, Repr

namespace Date

def isLeapYear (year : Nat) : Bool := year % 4 == 0 && (year % 100 != 0 || year % 400 == 0)

def daysIn (year month : Nat) : Nat :=
  if month = 2 then (if isLeapYear year then 29 else 28)
  else if month = 4 ∨ month = 6 ∨ month = 9 ∨ month = 11 then 30
  else 31

/-- Whether the date is a day of the years 1 to 9999. -/
def isValid (d : Date) : Bool :=
  1 ≤ d.year && d.year ≤ 9999 && 1 ≤ d.month && d.month ≤ 12 && 1 ≤ d.day &&
    d.day ≤ daysIn d.year d.month

def text (d : Date) : String :=
  toDecimalWidth 4 d.year ++ "-" ++ toDecimalWidth 2 d.month ++ "-" ++ toDecimalWidth 2 d.day

def describe (d : Date) : String :=
  "datetime.date(" ++ toDecimal d.year ++ ", " ++ toDecimal d.month ++ ", " ++
    toDecimal d.day ++ ")"

end Date

namespace TimeOfDay

/-- The standard text of a time of day. Microseconds show only if there are any. -/
def text (t : TimeOfDay) : String :=
  toDecimalWidth 2 t.hour ++ ":" ++ toDecimalWidth 2 t.minute ++ ":" ++ toDecimalWidth 2 t.second ++
    (if t.microsecond = 0 then "" else "." ++ toDecimalWidth 6 t.microsecond)

/-- The parts that a descriptive text shows: the seconds unless they and the
microseconds are zero, the microseconds unless they are zero. -/
def shownParts (t : TimeOfDay) : List Nat :=
  if t.microsecond ≠ 0 then [t.hour, t.minute, t.second, t.microsecond]
  else if t.second ≠ 0 then [t.hour, t.minute, t.second]
  else [t.hour, t.minute]

/-- The descriptive text of a time of day. -/
def describe (t : TimeOfDay) : String :=
  "datetime.time(" ++ ", ".intercalate (t.shownParts.map toDecimal) ++ ")"

end TimeOfDay

namespace Moment

/-- The standard text of an offset in minutes. -/
def offsetText (minutes : Int) : String :=
  (if minutes < 0 then "-" else "+") ++ toDecimalWidth 2 (minutes.natAbs / 60) ++ ":" ++
    toDecimalWidth 2 (minutes.natAbs % 60)

/-- The text of a moment with a separator between its date and its time. -/
def textWith (separator : String) (m : Moment) : String :=
  m.date.text ++ separator ++ m.time.text ++ (m.offset.map offsetText).getD ""

def text (m : Moment) : String := m.textWith "T"

/-- The descriptive text of an offset. A negative one is told as a day back
and the seconds forward from there. -/
def describeOffset (minutes : Int) : String :=
  if minutes = 0 then "datetime.timezone.utc"
  else if minutes < 0 then
    "datetime.timezone(datetime.timedelta(days=-1, seconds=" ++
      toDecimal (86400 - minutes.natAbs * 60) ++ "))"
  else
    "datetime.timezone(datetime.timedelta(seconds=" ++ toDecimal (minutes.natAbs * 60) ++ "))"

def describe (m : Moment) : String :=
  let parts := [m.date.year, m.date.month, m.date.day] ++ m.time.shownParts
  "datetime.datetime(" ++ ", ".intercalate (parts.map toDecimal) ++
    ((m.offset.map fun minutes => ", tzinfo=" ++ describeOffset minutes).getD "") ++ ")"

end Moment

/-- A leap day exists exactly in the years that have one. -/
theorem Date.daysIn_february (year : Nat) :
    Date.daysIn year 2 = if Date.isLeapYear year then 29 else 28 := rfl

end EventPolicy
