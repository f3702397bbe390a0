import EventPolicy.Number.Binary64
import EventPolicy.Number.Digits

/-!
The decimal text of a floating-point number: the fewest digits that read back
as the number and, among those, the nearest to it. Positional notation is kept
from `0.0001` up to sixteen digits before the point, with at least one digit
after it; beyond that the text has an exponent of at least two digits.
-/

namespace EventPolicy.Number

namespace Binary64

/-- The values that read as `significand * 2 ^ exponent`, as fractions of one
denominator: the lower end, the number itself and the upper end. The ends
belong to the interval when the significand is even. -/
structure Interval where
  lower : Nat
  value : Nat
  upper : Nat
  denominator : Nat
  closed : Bool

/-- The interval of a finite number. Below a power of two the gap to the next
smaller number is half as wide. -/
def interval (significand : Nat) (exponent : Int) : Interval :=
  let below := if significand = twoTo 52 ∧ leastExponent < exponent then 1 else 2
  let factor := if exponent < 0 then 1 else twoTo exponent.natAbs
  { lower := (4 * significand - below) * factor
    value := 4 * significand * factor
    upper := (4 * significand + 2) * factor
    denominator := if exponent < 0 then 4 * twoTo exponent.natAbs else 4
    closed := significand % 2 = 0 }

/-- Whether `digits * 10 ^ power` reads as the number of the interval. -/
def Interval.admits (i : Interval) (digits : Nat) (power : Int) : Bool :=
  let up := if power < 0 then 1 else tenTo power.natAbs
  let down := if power < 0 then tenTo power.natAbs else 1
  let point := digits * up * i.denominator
  if i.closed then i.lower * down ≤ point && point ≤ i.upper * down
  else i.lower * down < point && point < i.upper * down

/-- The largest power of ten that is not above the number, sought from a bound
that is. -/
def Interval.magnitudeFrom (i : Interval) : Nat → Int → Int
  | 0, power => power
  | steps + 1, power =>
    let up := if power < 0 then 1 else tenTo power.natAbs
    let down := if power < 0 then tenTo power.natAbs else 1
    if up * i.denominator ≤ i.value * down then power else i.magnitudeFrom steps (power - 1)

/-- The largest power of ten that is not above the number. -/
def Interval.magnitude (i : Interval) : Int := i.magnitudeFrom 640 310

/-- The two multiples of `10 ^ power` around the number that are in the
interval, the nearer one if both are; a tie goes to the even digit. -/
def Interval.candidate (i : Interval) (power : Int) : Option Nat :=
  let up := if power < 0 then 1 else tenTo power.natAbs
  let down := if power < 0 then tenTo power.natAbs else 1
  let step := up * i.denominator
  let floor := i.value * down / step
  let rest := i.value * down % step
  let low := i.admits floor power && floor != 0
  let high := i.admits (floor + 1) power
  if low && high then
    some (if 2 * rest < step then floor
      else if step < 2 * rest then floor + 1
      else if floor % 2 = 0 then floor else floor + 1)
  else if low then some floor
  else if high then some (floor + 1)
  else none

/-- The first grid of multiples of a power of ten that meets the interval,
sought from the coarsest. -/
def Interval.shortestFrom (i : Interval) : Nat → Int → Nat × Int
  | 0, power => (i.value / i.denominator, power)
  | steps + 1, power =>
    match i.candidate power with
    | some digits => (digits, power)
    | none => i.shortestFrom steps (power - 1)

/-- Digits without the zeros at their end, and how many zeros were dropped. -/
def dropZeros : Nat → Nat → Nat → Nat × Nat
  | 0, digits, dropped => (digits, dropped)
  | steps + 1, digits, dropped =>
    if digits % 10 = 0 ∧ digits ≠ 0 then dropZeros steps (digits / 10) (dropped + 1)
    else (digits, dropped)

/-- The fewest digits that read back as the number, with their power of ten. -/
def shortest (significand : Nat) (exponent : Int) : Nat × Int :=
  let i := interval significand exponent
  let (digits, power) := i.shortestFrom 17 i.magnitude
  let (digits, dropped) := dropZeros 20 digits 0
  (digits, power + dropped)

def positiveText (significand : Nat) (exponent : Int) : String :=
  if significand = 0 then "0.0"
  else
    let (digits, power) := shortest significand exponent
    let text := Nat.toDigits 10 digits
    let leading := (text.length : Int) - 1 + power
    if -4 ≤ leading ∧ leading < 16 then
      if leading < 0 then
        String.ofList (['0', '.'] ++ List.replicate (leading.natAbs - 1) '0' ++ text)
      else if 0 ≤ power then
        String.ofList (text ++ List.replicate power.natAbs '0' ++ ['.', '0'])
      else
        let whole := leading.natAbs + 1
        String.ofList (text.take whole ++ ['.'] ++ text.drop whole)
    else
      let fraction := if text.length = 1 then [] else '.' :: text.drop 1
      let sign := if leading < 0 then "e-" else "e+"
      String.ofList (text.take 1 ++ fraction) ++ sign ++ toDecimalWidth 2 leading.natAbs

def text : Binary64 → String
  | .nan => "nan"
  | .infinite negative => if negative then "-inf" else "inf"
  | .finite negative significand exponent =>
    (if negative then "-" else "") ++ positiveText significand exponent

end Binary64

end EventPolicy.Number
