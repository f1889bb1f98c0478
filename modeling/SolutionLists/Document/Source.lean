import SolutionLists.Text.Search
import SolutionLists.Yaml.Document
import SolutionLists.Yaml.Schema

namespace SolutionLists.Document

/-! Places of a document that values are read from. A node is taken as it is written,
so that a text may look like a number; a settled value has its type already. -/

inductive Source where
  /-- A node in which collections may be nested to the given depth. -/
  | written (depth : Nat) (node : Yaml.Node)
  | settled (value : Value)
deriving Repr, Inhabited

def greatestDepth : Nat := 128

/-! ## Reading -/

structure Anchors where
  nodes : List (Nat × Yaml.Node) := []
  /-- How many references may be followed. -/
  limit : Nat := 0
deriving Repr

abbrev Reading := ReaderT Anchors (StateT Nat Option)

namespace Reading

def fail {α : Type} : Reading α := fun _ _ => none

def ofOption {α : Type} : Option α → Reading α
  | some value => pure value
  | none => fail

def follow : Yaml.Node → Reading Yaml.Node
  | .reference anchor => do
      let followed := (← get) + 1
      set followed
      if (← read).limit < followed then fail
      else ofOption ((← read).nodes.lookup anchor)
  | node => pure node

def ofValue? {α : Type} (reading : Source → Reading α) (value : Value) : Option α :=
  ((reading (.settled value)).run {} |>.run 0).map (·.1)

/-- What is read from the document of a text. Of the references there may be a
hundred times as many followed as the document has nodes. -/
def ofText? {α : Type} (reading : Source → Reading α) (text : String) : Option α := do
  let document ← Yaml.document? text
  let anchors : Anchors := { nodes := document.anchors, limit := 100 * document.size }
  let (value, _) ← (reading (.written greatestDepth document.root)).run anchors |>.run 0
  pure value

end Reading

open Reading

/-! ## Settling the types of a node -/

def localTag? (properties : Yaml.Properties) : Option String :=
  properties.tag.bind (Text.stripStart? · "!")

def standardTag (name : String) : String :=
  "tag:yaml.org,2002:" ++ name

def isNullText (text : String) : Bool :=
  text ≠ "" && Yaml.isNull text

/-- The value of a scalar: a tag of the standard says its type, and else the text of a
plain one does. -/
def settleScalar (properties : Yaml.Properties) (plain : Bool) (text : String) :
    Option Value :=
  if (localTag? properties).isSome then none
  else
    match properties.tag with
    | none => if plain then Yaml.plainValue? text else some (.text text)
    | some tag =>
        if tag = standardTag "bool" then (Yaml.bool? text).map .bool
        else if tag = standardTag "int" then
          ((Yaml.integer? text).filter fun value =>
            Yaml.leastInteger ≤ value && value ≤ Yaml.greatestInteger).map .integer
        else if tag = standardTag "float" then (Yaml.double? text).map .decimal
        else if tag = standardTag "null" then if isNullText text then some .null else none
        else some (.text text)

def settle : (depth : Nat) → Yaml.Node → Reading Value
  | 0, node => do
      match ← follow node with
      | .scalar properties plain text => ofOption (settleScalar properties plain text)
      | _ => fail
  | depth + 1, node => do
      match ← follow node with
      | .scalar properties plain text => ofOption (settleScalar properties plain text)
      | .sequence properties items =>
          if (localTag? properties).isSome then fail
          else return .list (← items.mapM (settle depth))
      | .mapping properties entries =>
          if (localTag? properties).isSome then fail
          else
            return .object (← entries.mapM fun (key, value) => do
              return (← settle depth key, ← settle depth value))
      | .reference _ => fail

/-! ## Fields of an object -/

abbrev Fields := List (String × Source)

namespace Source

def value : Source → Reading Value
  | written depth node => settle depth node
  | settled value => pure value

def text : Source → Reading String
  | written _ node => do
      match ← follow node with
      | .scalar _ _ text => pure text
      | _ => fail
  | settled value => ofOption value.text?

def optional {α : Type} (reading : Source → Reading α) (source : Source) : Reading (Option α) := do
  match source with
  | settled .null => pure none
  | settled value => return some (← reading (settled value))
  | written depth node =>
      match ← follow node with
      | .scalar properties true text =>
          let isNull ←
            match properties.tag with
            | none => pure (Yaml.isNull text)
            | some tag =>
                if tag ≠ standardTag "null" then pure false
                else if isNullText text then pure true
                else fail
          if isNull then pure none
          else return some (← reading (written depth (.scalar properties true text)))
      | node => return some (← reading (written depth node))

def items : Source → Reading (List Source)
  | settled (.list items) => pure (items.map settled)
  | settled _ => fail
  | written depth node => do
      match ← follow node, depth with
      | .sequence _ items, depth + 1 => pure (items.map (written depth))
      | .scalar _ true "", _ => pure []
      | _, _ => fail

def texts (source : Source) : Reading (List String) := do
  (← source.items).mapM text

/-- The entries of an object with a settled key each. As written, nothing is an empty
object, and a key is a text. -/
def entries : Source → Reading (List (Value × Source))
  | settled (.object entries) => pure (entries.map fun (key, value) => (key, settled value))
  | settled _ => fail
  | written depth node => do
      match ← follow node, depth with
      | .mapping _ entries, depth + 1 =>
          entries.mapM fun (key, value) => do
            return (.text (← (written depth key).text), written depth value)
      | .scalar _ true "", _ => pure []
      | _, _ => fail

def fieldName (names : List String) : Value → Reading (Option String)
  | .text name => pure (if name ∈ names then some name else none)
  | .integer index => if 0 ≤ index then pure names[index.toNat]? else fail
  | _ => fail

def distinct (fields : Fields) : Reading Fields :=
  if (fields.map (·.1)).Nodup then pure fields else fail

/-- The fields of an object with the given names, others being left out. A settled list
gives the fields in the order of their names. -/
def fields (names : List String) (source : Source) : Reading Fields := do
  match source with
  | settled (.list items) =>
      if items.length ≤ names.length then pure (names.zip (items.map settled)) else fail
  | source =>
      let named ← (← source.entries).filterMapM fun (key, source) => do
        return (← fieldName names key).map fun name => (name, source)
      distinct named

def openFields (names : List String) (source : Source) :
    Reading (Fields × List (Value × Value)) := do
  let mut known : Fields := []
  let mut others : List (Value × Value) := []
  for (key, source) in ← source.entries do
    match key with
    | .text name =>
        if name ∈ names then known := (name, source) :: known
        else others := (key, ← source.value) :: others
    | .integer index =>
        if 0 ≤ index then others := (key, ← source.value) :: others else fail
    | _ => fail
  return (← distinct known.reverse, others.reverse)

end Source

namespace Fields

def read {α : Type} (fields : Fields) (name : String) (reading : Source → Reading α)
    (absent : α) : Reading α :=
  match fields.lookup name with
  | some source => reading source
  | none => pure absent

def require {α : Type} (fields : Fields) (name : String) (reading : Source → Reading α) :
    Reading α :=
  match fields.lookup name with
  | some source => reading source
  | none => fail

def text (fields : Fields) (name : String) : Reading String :=
  fields.read name Source.text ""

def texts (fields : Fields) (name : String) : Reading (List String) :=
  fields.read name Source.texts []

def all {α : Type} (fields : Fields) (name : String) (reading : Source → Reading α) :
    Reading (List α) :=
  fields.read name (fun source => do (← source.items).mapM reading) []

end Fields

end SolutionLists.Document
