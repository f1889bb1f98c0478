import SolutionLists.Decimal.Double
import SolutionLists.Text.Number

namespace SolutionLists.Double

/-! Numbers in decimal notation: digits with a point among them or without, and
perhaps an exponent. -/

open Text (natural? splitSign)

/-- The digits of a number: a whole part and a fraction, one of which may be empty,
and an exponent. -/
def notationParts? (chars : List Char) : Option (Nat × Int) := do
  let whole := chars.takeWhile Char.isDigit
  let rest := chars.drop whole.length
  let (fraction, rest) :=
    match rest with
    | '.' :: rest => (rest.takeWhile Char.isDigit, rest.dropWhile Char.isDigit)
    | _ => ([], rest)
  let digits ← natural? 10 (whole ++ fraction)
  let exponent : Int ←
    match rest with
    | [] => some 0
    | mark :: rest =>
        if mark = 'e' || mark = 'E' then
          let (sign, power) := splitSign rest
          (natural? 10 power).map fun power => if sign = some '-' then -(power : Int) else power
        else none
  pure (digits, exponent - fraction.length)

def ofNotation? (negative : Bool) (chars : List Char) : Option Double :=
  (notationParts? chars).map fun (digits, exponent) => ofDecimal negative digits exponent

example : notationParts? "12.5e-3".toList = some (125, -4) := by decide
example : notationParts? ".".toList = none := by decide

end SolutionLists.Double
