namespace SolutionLists

/-! Numbers of double precision: a whole number of 53 bits times a power of two, and
the values that stand outside them. -/

inductive Double where
  | finite (negative : Bool) (mantissa : Nat) (exponent : Int)
  | infinite (negative : Bool)
  | notANumber
deriving DecidableEq, Repr, Inhabited

namespace Double

def precision : Nat := 53

def smallestExponent : Int := -1074

def largestExponent : Int := 971

def zero (negative : Bool) : Double := .finite negative 0 smallestExponent

def isFinite : Double → Bool
  | finite .. => true
  | _ => false

def roundDivision (dividend divisor : Nat) : Nat :=
  let quotient := dividend / divisor
  let twice := 2 * (dividend % divisor)
  if divisor < twice ∨ (twice = divisor ∧ quotient % 2 = 1) then quotient + 1 else quotient

def scaleDown (dividend divisor : Nat) (exponent : Int) : Nat × Nat :=
  if 0 ≤ exponent then (dividend, divisor * Nat.pow 2 exponent.toNat)
  else (dividend * Nat.pow 2 (-exponent).toNat, divisor)

/-- The exponent for which the mantissa of a ratio has all its bits, or the smallest
one. -/
def exponentFor (dividend divisor : Nat) : Int :=
  let estimate : Int := (dividend.log2 : Int) - divisor.log2 - precision
  let scaled := scaleDown dividend divisor estimate
  let full := if scaled.1 / scaled.2 < Nat.pow 2 precision then estimate else estimate + 1
  max full smallestExponent

def ofRatio (negative : Bool) (dividend divisor : Nat) : Double :=
  if dividend = 0 then zero negative
  else
    let exponent := exponentFor dividend divisor
    let scaled := scaleDown dividend divisor exponent
    let mantissa := roundDivision scaled.1 scaled.2
    let (mantissa, exponent) :=
      if mantissa = Nat.pow 2 precision then (Nat.pow 2 (precision - 1), exponent + 1)
      else (mantissa, exponent)
    if largestExponent < exponent then .infinite negative else .finite negative mantissa exponent

/-- The double nearest to `digits · 10 ^ exponent`. Powers that lie outside every
double are not worked out. -/
def ofDecimal (negative : Bool) (digits : Nat) (exponent : Int) : Double :=
  let magnitude := exponent + (Nat.toDigits 10 digits).length
  if digits = 0 ∨ magnitude < -400 then zero negative
  else if 400 < magnitude then .infinite negative
  else if 0 ≤ exponent then ofRatio negative (digits * Nat.pow 10 exponent.toNat) 1
  else ofRatio negative digits (Nat.pow 10 (-exponent).toNat)

def ofInt (value : Int) : Double :=
  ofRatio (value < 0) value.natAbs 1

example : ofDecimal false 15 (-1) = .finite false (3 * 2 ^ 51) (-52) := by decide
example : ofInt (2 ^ 53 + 1) = .finite false (2 ^ 52) 1 := by decide

end Double

end SolutionLists
