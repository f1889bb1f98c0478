import SolutionLists.Decimal.Double

namespace SolutionLists.Double

/-! The fewest digits that read back as a double, and the text made from them. -/

structure Decimal where
  digits : Nat
  exponent : Int
deriving DecidableEq, Repr

/-- The real numbers around a double that round to it, as multiples of a common
power of two. -/
structure Neighbourhood where
  low : Nat
  value : Nat
  high : Nat
  exponent : Int
  /-- Whether the ends round to the double as well. -/
  closed : Bool
deriving DecidableEq, Repr

namespace Neighbourhood

/-- The step below the smallest mantissa of an exponent is half as wide. -/
def make (mantissa : Nat) (exponent : Int) : Neighbourhood where
  low :=
    if mantissa = Nat.pow 2 (precision - 1) ∧ smallestExponent < exponent then 4 * mantissa - 1
    else 4 * mantissa - 2
  value := 4 * mantissa
  high := 4 * mantissa + 2
  exponent := exponent - 2
  closed := mantissa % 2 = 0

structure Scaled where
  low : Nat
  value : Nat
  high : Nat
  step : Nat
deriving DecidableEq, Repr

def scale (area : Neighbourhood) (decimalExponent : Int) : Scaled :=
  let binary := Nat.pow 2 area.exponent.toNat * Nat.pow 10 (-decimalExponent).toNat
  { low := area.low * binary
    value := area.value * binary
    high := area.high * binary
    step := Nat.pow 10 decimalExponent.toNat * Nat.pow 2 (-area.exponent).toNat }

def nearest? (area : Neighbourhood) (decimalExponent : Int) : Option Decimal :=
  let scaled := area.scale decimalExponent
  let inside := fun (candidate : Nat) =>
    let point := candidate * scaled.step
    if area.closed then scaled.low ≤ point ∧ point ≤ scaled.high
    else scaled.low < point ∧ point < scaled.high
  let below := scaled.value / scaled.step
  let remainder := scaled.value % scaled.step
  let found :=
    if inside below then
      if 2 * remainder < scaled.step ∨ ¬inside (below + 1) then some below else some (below + 1)
    else if inside (below + 1) then some (below + 1)
    else none
  found.map fun digits => ⟨digits, decimalExponent⟩

def search (area : Neighbourhood) (decimalExponent : Int) : (grids : Nat) → Option Decimal
  | 0 => none
  | grids + 1 => (area.nearest? decimalExponent).or (area.search (decimalExponent - 1) grids)

end Neighbourhood

/-- The fewest digits that read back as `mantissa · 2 ^ exponent`. Grids are tried from
a power of ten above the value down to seventeen digits. -/
def shortest (mantissa : Nat) (exponent : Int) : Decimal :=
  let area := Neighbourhood.make mantissa exponent
  let magnitude := ((mantissa.log2 : Int) + exponent) * 30103 / 100000 + 2
  (area.search magnitude 22).getD ⟨0, 0⟩

def Decimal.text (number : Decimal) : String :=
  let digits := Nat.toDigits 10 number.digits
  if 0 ≤ number.exponent then
    String.ofList (digits ++ List.replicate number.exponent.toNat '0')
  else
    let places := (-number.exponent).toNat
    let padded := List.replicate (places + 1 - digits.length) '0' ++ digits
    let whole := padded.length - places
    String.ofList (padded.take whole ++ '.' :: padded.drop whole)

def text : Double → String
  | .finite negative mantissa exponent =>
      let magnitude := if mantissa = 0 then "0" else (shortest mantissa exponent).text
      if negative then "-" ++ magnitude else magnitude
  | .infinite negative => if negative then "-inf" else "inf"
  | .notANumber => "NaN"

example : (ofDecimal false 1 (-1)).text = "0.1" := by decide +kernel
example : (ofDecimal true 0 0).text = "-0" := by decide +kernel
example : (ofDecimal false 123456789125 (-3)).text = "123456789.125" := by decide +kernel

end SolutionLists.Double
