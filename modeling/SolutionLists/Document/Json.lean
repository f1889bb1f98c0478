import SolutionLists.Decimal.Shortest
import SolutionLists.Document.Value

namespace SolutionLists.Document

/-! Values as JSON text, on one line or with a line for every item. -/

namespace Json

/-! ## Scalars -/

def escapes : List (Char × Char) :=
  [('"', '"'), ('\\', '\\'), ('\x08', 'b'), ('\t', 't'), ('\n', 'n'), ('\x0c', 'f'),
    ('\r', 'r')]

def escape (char : Char) : List Char :=
  match escapes.lookup char with
  | some letter => ['\\', letter]
  | none =>
      if char.toNat < 0x20 then
        let digits := Nat.toDigits 16 char.toNat
        '\\' :: 'u' :: List.replicate (4 - digits.length) '0' ++ digits
      else [char]

def quoted (text : String) : String :=
  String.ofList ('"' :: text.toList.flatMap escape ++ ['"'])

/-- A positive number, which has a point or an exponent. Numbers below a hundred
thousandth, or with more than sixteen digits in front of the point, have an exponent. -/
def magnitude (number : Double.Decimal) : String :=
  let digits := Nat.toDigits 10 number.digits
  let point := number.exponent + digits.length
  if -5 < point ∧ point ≤ 16 then
    number.text ++ (if 0 ≤ number.exponent then ".0" else "")
  else
    String.ofList (digits.take 1) ++
      (if digits.length = 1 then "" else "." ++ String.ofList (digits.drop 1)) ++
      "e" ++ toString (point - 1)

def number : Double → String
  | .finite negative mantissa exponent =>
      (if negative then "-" else "") ++
        (if mantissa = 0 then "0.0" else magnitude (Double.shortest mantissa exponent))
  | .infinite _ | .notANumber => "null"

example : quoted "a\"\n\x01" = "\"a\\\"\\n\\u0001\"" := by decide
example : magnitude ⟨15, -1⟩ = "1.5" := by decide +kernel
example : magnitude ⟨12, 20⟩ = "1.2e21" := by decide +kernel

/-! ## Collections -/

/-- Where the next line starts: two columns for every collection it stands in. Without
a depth there are no lines. -/
def lineStart : (depth : Option Nat) → String
  | none => ""
  | some depth => "\n" ++ String.ofList (List.replicate (2 * depth) ' ')

def bracketed (left right : String) (depth : Option Nat) (items : List String) : String :=
  if items = [] then left ++ right
  else
    let start := lineStart (depth.map (· + 1))
    left ++ start ++ ("," ++ start).intercalate items ++ lineStart depth ++ right

def key (depth : Option Nat) (value : Value) : String :=
  quoted (value.text?.getD "") ++ (if depth.isSome then ": " else ":")

mutual

def text (depth : Option Nat) : Value → String
  | .null => "null"
  | .bool value => if value then "true" else "false"
  | .integer value => toString value
  | .decimal value => number value
  | .text value => quoted value
  | .list items => bracketed "[" "]" depth (itemTexts (depth.map (· + 1)) items)
  | .object entries =>
      bracketed "\x7b" "\x7d" depth (entryTexts (depth.map (· + 1)) entries)

def itemTexts (depth : Option Nat) : List Value → List String
  | [] => []
  | item :: rest => text depth item :: itemTexts depth rest

def entryTexts (depth : Option Nat) : List (Value × Value) → List String
  | [] => []
  | (name, value) :: rest => (key depth name ++ text depth value) :: entryTexts depth rest

end

end Json

def Value.json (value : Value) : String :=
  Json.text none value

def Value.jsonLines (value : Value) : String :=
  Json.text (some 0) value

example : Value.json (.record [("a", .list [.integer (-1), .null]), ("b", .list [])]) =
    "\x7b\"a\":[-1,null],\"b\":[]\x7d" := by decide +kernel

end SolutionLists.Document
