import EventPolicy.Number.Digits

/-!
Binary floating-point numbers of sixty-four bits. A finite number is a sign,
a significand below `2^53` and a power of two; each number has one such form.
`ofScaled` rounds an exact decimal to the nearest number and a tie to the even
significand, in exact arithmetic of natural numbers.
-/

namespace EventPolicy.Number

/-- A floating-point number. A finite one stands for `significand * 2 ^ exponent`
with its sign, where the significand has 53 bits unless the exponent is least. -/
inductive Binary64 where
  | finite (negative : Bool) (significand : Nat) (exponent : Int)
  | infinite (negative : Bool)
  | nan
  deriving DecidableEq, Repr

namespace Binary64

def leastExponent : Int := -1074

def greatestExponent : Int := 971

def zero (negative : Bool) : Binary64 := .finite negative 0 leastExponent

/-- The quotient rounded to the nearest number, a tie to the even one. -/
def divideToEven (numerator denominator : Nat) : Nat :=
  let quotient := numerator / denominator
  let rest := numerator % denominator
  if 2 * rest < denominator then quotient
  else if denominator < 2 * rest then quotient + 1
  else if quotient % 2 = 0 then quotient else quotient + 1

/-- `numerator / (denominator * 2 ^ exponent)` as a fraction. -/
def scaled (numerator denominator : Nat) (exponent : Int) : Nat × Nat :=
  if exponent < 0 then (numerator * twoTo exponent.natAbs, denominator)
  else (numerator, denominator * twoTo exponent.natAbs)

/-- The exponent at which a positive fraction has a significand of 53 bits, or
the least exponent if it is too small for that. -/
def exponentOf (numerator denominator : Nat) : Int :=
  let guess := (numerator.log2 : Int) - denominator.log2 - 52
  let (n, d) := scaled numerator denominator guess
  max leastExponent (if n / d < twoTo 52 then guess - 1 else guess)

def ofFraction (negative : Bool) (numerator denominator : Nat) : Binary64 :=
  if numerator = 0 then zero negative
  else
    let exponent := exponentOf numerator denominator
    let (n, d) := scaled numerator denominator exponent
    let rounded := divideToEven n d
    let (significand, exponent) :=
      if rounded = twoTo 53 then (twoTo 52, exponent + 1) else (rounded, exponent)
    if greatestExponent < exponent then .infinite negative
    else if significand = 0 then zero negative
    else .finite negative significand exponent

/-- The number nearest to `digits * 10 ^ power`. A decimal far outside the
range is decided by its magnitude alone. -/
def ofScaled (negative : Bool) (digits : Nat) (power : Int) : Binary64 :=
  let magnitude := ((Nat.toDigits 10 digits).length : Int) + power
  if digits = 0 ∨ magnitude < -330 then zero negative
  else if 320 < magnitude then .infinite negative
  else if power < 0 then ofFraction negative digits (tenTo power.natAbs)
  else ofFraction negative (digits * tenTo power.natAbs) 1

/-- Whether the number is one of the two zeros. -/
def isZero : Binary64 → Bool
  | .finite _ significand _ => significand == 0
  | _ => false

/-- The whole number that a number is, if it is one. -/
def toInt? : Binary64 → Option Int
  | .finite negative significand exponent =>
    let power := twoTo exponent.natAbs
    let signed (magnitude : Nat) : Int := if negative then -magnitude else magnitude
    if 0 ≤ exponent then some (signed (significand * power))
    else if significand % power = 0 then some (signed (significand / power))
    else none
  | _ => none

/-- Rounding moves a quotient by at most one half. -/
theorem divideToEven_near (numerator denominator : Nat) (h : 0 < denominator) :
    2 * numerator ≤ (2 * divideToEven numerator denominator + 1) * denominator ∧
      2 * divideToEven numerator denominator * denominator ≤ 2 * numerator + denominator := by
  have division := Nat.div_add_mod numerator denominator
  have small := Nat.mod_lt numerator h
  generalize hq : numerator / denominator = q at division
  generalize hr : numerator % denominator = r at division small
  have expand : denominator * q = q * denominator := Nat.mul_comm _ _
  simp only [divideToEven, hq, hr]
  repeat' split
  all_goals
    constructor <;> simp only [Nat.add_mul, Nat.mul_add, Nat.mul_assoc] <;> omega

end Binary64

end EventPolicy.Number
