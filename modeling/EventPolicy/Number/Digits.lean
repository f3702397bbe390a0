/-!
Digits of natural numbers in a base, written and read, and the powers that
scale them. Numbers are written without leading zeros except where a width is
asked for.
-/

namespace EventPolicy.Number

def twoTo (power : Nat) : Nat := Nat.pow 2 power

def tenTo (power : Nat) : Nat := Nat.pow 10 power

/-- The value of a character as a digit, up to `f`. -/
def digitValue? (c : Char) : Option Nat :=
  if '0' ≤ c ∧ c ≤ '9' then some (c.toNat - 48)
  else if 'a' ≤ c ∧ c ≤ 'f' then some (c.toNat - 87)
  else if 'A' ≤ c ∧ c ≤ 'F' then some (c.toNat - 55)
  else none

/-- Whether a character is a digit of a base up to sixteen. -/
def isDigitOf (base : Nat) (c : Char) : Bool :=
  match digitValue? c with
  | some value => value < base
  | none => false

/-- The number written by the digits; other characters are passed over. -/
def ofDigits (base : Nat) (digits : List Char) : Nat :=
  digits.foldl (fun total c => match digitValue? c with
    | some value => total * base + value
    | none => total) 0

def toDecimal (n : Nat) : String := String.ofList (Nat.toDigits 10 n)

/-- The number in decimal digits, a negative one after a minus sign. -/
def intToDecimal (n : Int) : String :=
  if n < 0 then "-" ++ toDecimal n.natAbs else toDecimal n.natAbs

/-- Digits with zeros in front up to a width. -/
def padZeros (width : Nat) (digits : List Char) : List Char :=
  List.replicate (width - digits.length) '0' ++ digits

/-- The number in decimal digits with zeros in front up to a width. -/
def toDecimalWidth (width n : Nat) : String := String.ofList (padZeros width (Nat.toDigits 10 n))

/-- The number in small hexadecimal digits with zeros in front up to a width. -/
def toHexWidth (width n : Nat) : String := String.ofList (padZeros width (Nat.toDigits 16 n))

/-- The next power of two is twice as large. -/
theorem twoTo_succ (power : Nat) : twoTo (power + 1) = twoTo power * 2 := rfl

/-- The next power of ten is ten times as large. -/
theorem tenTo_succ (power : Nat) : tenTo (power + 1) = tenTo power * 10 := rfl

/-- Padding fills up to the width and never cuts. -/
theorem length_padZeros (width : Nat) (digits : List Char) :
    (padZeros width digits).length = max width digits.length := by
  simp only [padZeros, List.length_append, List.length_replicate]
  omega

end EventPolicy.Number
