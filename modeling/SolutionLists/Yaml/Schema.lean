import SolutionLists.Decimal.Notation
import SolutionLists.Document.Value

namespace SolutionLists.Yaml

/-! The types of plain scalars by their text. -/

open Document (Value)
open Text (natural? splitSign)

def isNull (text : String) : Bool :=
  ["", "null", "Null", "NULL", "~"].contains text

def bool? (text : String) : Option Bool :=
  if ["true", "True", "TRUE"].contains text then some true
  else if ["false", "False", "FALSE"].contains text then some false
  else none

/-! ## Whole numbers -/

def isPadded (chars : List Char) : Bool :=
  match (splitSign chars).2 with
  | '0' :: rest => !rest.isEmpty && rest.all Char.isDigit
  | _ => false

def integer? (text : String) : Option Int :=
  let (sign, chars) := splitSign text.toList
  let magnitude :=
    match chars with
    | '0' :: 'x' :: rest => natural? 16 rest
    | '0' :: 'o' :: rest => natural? 8 rest
    | '0' :: 'b' :: rest => natural? 2 rest
    | _ => if isPadded chars then none else natural? 10 chars
  magnitude.map fun magnitude => if sign = some '-' then -(magnitude : Int) else magnitude

/-! ## Other numbers -/

def double? (text : String) : Option Double :=
  let (sign, chars) := splitSign text.toList
  let negative := sign = some '-'
  if [".inf", ".Inf", ".INF"].contains (String.ofList chars) then some (.infinite negative)
  else if [".nan", ".NaN", ".NAN"].contains text then some .notANumber
  else
    (Double.ofNotation? negative chars).filter (·.isFinite)

/-! ## All types -/

def leastInteger : Int := -0x8000000000000000

def greatestInteger : Int := 0xFFFFFFFFFFFFFFFF

def widestInteger : Int := 0x80000000000000000000000000000000

def isOversized (value : Int) : Bool :=
  (greatestInteger < value && value < 2 * widestInteger) ||
    (value < leastInteger && -widestInteger ≤ value)

/-- The value of a plain scalar. Whole numbers beyond 64 bits are refused, those
beyond 128 bits are taken as decimal ones. -/
def plainValue? (text : String) : Option Value :=
  if isNull text then some .null
  else
    match bool? text, integer? text with
    | some value, _ => some (.bool value)
    | none, some value =>
        if isOversized value then none
        else if leastInteger ≤ value && value ≤ greatestInteger then some (.integer value)
        else some ((double? text).elim (.text text) .decimal)
    | none, none =>
        if isPadded text.toList then some (.text text)
        else some ((double? text).elim (.text text) .decimal)

example : integer? "-0x10" = some (-16) := by decide
example : integer? "017" = none := by decide

end SolutionLists.Yaml
