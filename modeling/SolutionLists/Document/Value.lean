import SolutionLists.Decimal.Double

namespace SolutionLists.Document

/-! What a document says, once every scalar has a type. Keys of an object need not be
texts, and may be repeated. -/

inductive Value where
  | null
  | bool (value : Bool)
  | integer (value : Int)
  | decimal (value : Double)
  | text (value : String)
  | list (items : List Value)
  | object (entries : List (Value × Value))
deriving Repr, Inhabited

namespace Value

def record (entries : List (String × Value)) : Value :=
  .object (entries.map fun (key, value) => (.text key, value))

def texts (items : List String) : Value :=
  .list (items.map .text)

def text? : Value → Option String
  | text value => some value
  | _ => none

end Value

end SolutionLists.Document
