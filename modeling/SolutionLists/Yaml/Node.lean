import SolutionLists.Yaml.Layout

namespace SolutionLists.Yaml

/-! The nodes of a document, made from its tokens. -/

structure Properties where
  /-- Number of the anchor. -/
  anchor : Option Nat := none
  tag : Option String := none
deriving DecidableEq, Repr, Inhabited

inductive Node where
  | scalar (properties : Properties) (plain : Bool) (text : String)
  | sequence (properties : Properties) (items : List Node)
  | mapping (properties : Properties) (entries : List (Node × Node))
  /-- The node behind the anchor with this number. -/
  | reference (anchor : Nat)
deriving Repr, Inhabited

namespace Node

def empty : Node := scalar {} true ""

mutual

def size : Node → Nat
  | scalar .. | reference _ => 1
  | sequence _ items => sizeOfItems items + 2
  | mapping _ entries => sizeOfEntries entries + 2

def sizeOfItems : List Node → Nat
  | [] => 0
  | node :: rest => node.size + sizeOfItems rest

def sizeOfEntries : List (Node × Node) → Nat
  | [] => 0
  | (key, value) :: rest => key.size + value.size + sizeOfEntries rest

end

def properties : Node → Properties
  | scalar properties .. | sequence properties _ | mapping properties _ => properties
  | reference _ => {}

mutual

def anchored (node : Node) : List (Nat × Node) :=
  (node.properties.anchor.map fun anchor => (anchor, node)).toList ++
    match node with
    | sequence _ items => anchoredItems items
    | mapping _ entries => anchoredEntries entries
    | scalar .. | reference _ => []

def anchoredItems : List Node → List (Nat × Node)
  | [] => []
  | node :: rest => node.anchored ++ anchoredItems rest

def anchoredEntries : List (Node × Node) → List (Nat × Node)
  | [] => []
  | (key, value) :: rest => key.anchored ++ value.anchored ++ anchoredEntries rest

end

end Node

/-! ## Steps through the tokens -/

structure Progress where
  tokens : List Token
  /-- Names of anchors with their numbers. -/
  anchors : List (String × Nat) := []
deriving DecidableEq, Repr

abbrev Reader := StateT Progress Option

namespace Reader

def fail {α : Type} : Reader α := fun _ => none

def next : Reader (Option Token) :=
  return (← get).tokens.head?

def skip : Reader Unit :=
  modify fun progress => { progress with tokens := progress.tokens.drop 1 }

def expect (token : Token) : Reader Unit := do
  if (← next) = some token then skip else fail

def accept (token : Token) : Reader Bool := do
  if (← next) = some token then
    skip
    return true
  else return false

/-- Number an anchor by how many names there are; a name that is met again loses its
old number. -/
def addAnchor (name : String) : Reader Nat := do
  let anchors := (← get).anchors
  let number := anchors.length
  modify fun progress =>
    { progress with anchors := (name, number) :: anchors.filter (·.1 ≠ name) }
  return number

end Reader

open Reader

/-! ## Nodes -/

abbrev Handles := List (String × String)

def resolveTag? (handles : Handles) (handle ending : String) : Option String :=
  if handle = "" then some ending
  else (handles.lookup handle).map fun start => start ++ ending

def readTag (handles : Handles) : Reader (Option String) := do
  match ← next with
  | some (.tag handle ending) =>
      skip
      match resolveTag? handles handle ending with
      | some tag => return some tag
      | none => fail
  | _ => return none

def readAnchor : Reader (Option Nat) := do
  match ← next with
  | some (.anchor name) =>
      skip
      return some (← addAnchor name)
  | _ => return none

def readProperties (handles : Handles) : Reader Properties := do
  match ← readAnchor with
  | some anchor => return { anchor, tag := ← readTag handles }
  | none =>
      let tag ← readTag handles
      return { anchor := ← readAnchor, tag }

mutual

/-- A node. In a flow collection no block may begin; the items of a sequence may
stand at the column of the key in front of it. -/
def readNode (handles : Handles) (inBlock indentless : Bool) : (depth : Nat) → Reader Node
  | 0 => fail
  | depth + 1 => do
      if let some (.reference name) ← next then
        skip
        match (← get).anchors.lookup name with
        | some anchor => return .reference anchor
        | none => fail
      else
        let properties ← readProperties handles
        match ← next with
        | some (.scalar plain text) =>
            skip
            return .scalar
              (if properties.tag = some "!" then { properties with tag := none } else properties)
              plain text
        | some .flowSequenceStart =>
            skip
            return .sequence properties (← readFlowItems handles true depth)
        | some .flowMappingStart =>
            skip
            return .mapping properties (← readFlowEntries handles true depth)
        | some .blockEntry =>
            if indentless then return .sequence properties (← readItems handles depth)
            else if properties = {} then fail
            else return .scalar properties true ""
        | some .blockSequenceStart =>
            if inBlock then
              skip
              let items ← readItems handles depth
              expect .blockEnd
              return .sequence properties items
            else if properties = {} then fail
            else return .scalar properties true ""
        | some .blockMappingStart =>
            if inBlock then
              skip
              return .mapping properties (← readEntries handles depth)
            else if properties = {} then fail
            else return .scalar properties true ""
        | _ =>
            if properties = {} then fail
            else return .scalar properties true ""

def readItems (handles : Handles) : (depth : Nat) → Reader (List Node)
  | 0 => fail
  | depth + 1 => do
      if ← accept .blockEntry then
        let item ← match ← next with
          | some .blockEntry | some .key | some .value | some .blockEnd => pure .empty
          | _ => readNode handles true false depth
        return item :: (← readItems handles depth)
      else return []

def readEntries (handles : Handles) : (depth : Nat) → Reader (List (Node × Node))
  | 0 => fail
  | depth + 1 => do
      if ← accept .key then
        let key ← match ← next with
          | some .key | some .value | some .blockEnd => pure .empty
          | _ => readNode handles true true depth
        let value ← if ← accept .value then
            match ← next with
            | some .key | some .value | some .blockEnd => pure .empty
            | _ => readNode handles true true depth
          else pure .empty
        return (key, value) :: (← readEntries handles depth)
      else
        expect .blockEnd
        return []

/-- Items of a flow sequence and its end. An item with a key is a mapping of one
entry. -/
def readFlowItems (handles : Handles) (first : Bool) : (depth : Nat) → Reader (List Node)
  | 0 => fail
  | depth + 1 => do
      if ← accept .flowSequenceEnd then return []
      else
        if !first then expect .flowEntry
        if ← accept .flowSequenceEnd then return []
        else if ← accept .key then
          let entry ← readSingleEntry handles depth
          return .mapping {} [entry] :: (← readFlowItems handles false depth)
        else
          let item ← readNode handles false false depth
          return item :: (← readFlowItems handles false depth)

/-- The entry of a mapping without braces. An absent key takes up the token that
stands in its place. -/
def readSingleEntry (handles : Handles) : (depth : Nat) → Reader (Node × Node)
  | 0 => fail
  | depth + 1 => do
      let key ← match ← next with
        | some .value | some .flowEntry | some .flowSequenceEnd => do
            skip
            pure .empty
        | _ => readNode handles false false depth
      let value ← if ← accept .value then
          match ← next with
          | some .flowEntry | some .flowSequenceEnd => pure .empty
          | _ => readNode handles false false depth
        else pure .empty
      return (key, value)

def readFlowEntries (handles : Handles) (first : Bool) :
    (depth : Nat) → Reader (List (Node × Node))
  | 0 => fail
  | depth + 1 => do
      if ← accept .flowMappingEnd then return []
      else
        if !first then expect .flowEntry
        if ← accept .flowMappingEnd then return []
        else if ← accept .key then
          let key ← match ← next with
            | some .value | some .flowEntry | some .flowMappingEnd => pure .empty
            | _ => readNode handles false false depth
          let value ← if ← accept .value then
              match ← next with
              | some .flowEntry | some .flowMappingEnd => pure .empty
              | _ => readNode handles false false depth
            else pure .empty
          return (key, value) :: (← readFlowEntries handles false depth)
        else
          let key ← readNode handles false false depth
          return (key, .empty) :: (← readFlowEntries handles false depth)

end

end SolutionLists.Yaml
