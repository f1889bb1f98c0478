import SolutionLists.Yaml.Token

namespace SolutionLists.Yaml

/-! The layout of a document while its tokens are found: which blocks are open, and
whether what has been read last may turn out to be a key. -/

structure PossibleKey where
  /-- How many tokens stand in front. -/
  position : Nat
  line : Nat
  column : Nat
  /-- Nothing but a key may stand here. -/
  required : Bool
deriving DecidableEq, Repr

structure Layout where
  /-- Tokens so far, the last one in front. -/
  tokens : List Token := []
  count : Nat := 0
  /-- Columns of the open blocks, innermost first. -/
  columns : List Nat := []
  /-- The possible key of the innermost flow collection, or of the blocks. -/
  key : Option PossibleKey := none
  /-- Those around it; there is one for each open flow collection. -/
  outerKeys : List (Option PossibleKey) := []
  /-- Whether a key may begin at the next token. -/
  keyAllowed : Bool := true
deriving DecidableEq, Repr

namespace Layout

def inFlow (layout : Layout) : Bool :=
  !layout.outerKeys.isEmpty

def add (layout : Layout) (token : Token) : Layout :=
  { layout with tokens := token :: layout.tokens, count := layout.count + 1 }

def insert (layout : Layout) (position : Nat) (token : Token) : Layout :=
  let later := layout.count - position
  { layout with
    tokens := layout.tokens.take later ++ token :: layout.tokens.drop later
    count := layout.count + 1 }

def allowKey (layout : Layout) (keyAllowed : Bool) : Layout :=
  { layout with keyAllowed }

/-! ## Blocks -/

/-- Open a block at a column that lies to the right of the innermost one. Its token
goes to the given position. -/
def openBlock (layout : Layout) (column position : Nat) (token : Token) : Layout :=
  if !layout.inFlow && layout.columns.head?.all (· < column) then
    { layout.insert position token with columns := column :: layout.columns }
  else layout

def closeBlocks (layout : Layout) (column : Option Nat) : Layout :=
  if layout.inFlow then layout
  else
    let open_ := layout.columns.takeWhile fun block => column.all (· < block)
    { layout with
      tokens := open_.map (fun _ => Token.blockEnd) ++ layout.tokens
      count := layout.count + open_.length
      columns := layout.columns.drop open_.length }

/-! ## Possible keys -/

def dropKey (layout : Layout) : Option Layout :=
  if layout.key.any (·.required) then none else some { layout with key := none }

/-- Whether a key that began here may still go on at a place: on the same line and
within 1024 characters. -/
def PossibleKey.reaches (key : PossibleKey) (line column : Nat) : Bool :=
  line ≤ key.line && column ≤ key.column + 1024

def stillPossible (line column : Nat) (key : Option PossibleKey) : Option PossibleKey :=
  key.filter (PossibleKey.reaches · line column)

def dropOldKeys (layout : Layout) (line column : Nat) : Option Layout :=
  let isLost := fun (key : Option PossibleKey) =>
    key.any fun key => key.required && !PossibleKey.reaches key line column
  if isLost layout.key || layout.outerKeys.any isLost then none
  else
    some
      { layout with
        key := stillPossible line column layout.key
        outerKeys := layout.outerKeys.map (stillPossible line column) }

/-- Remember that a key may begin at a mark. At the column of the innermost block
nothing else can. -/
def startKey (layout : Layout) (mark : Mark) : Option Layout :=
  if layout.keyAllowed then
    layout.dropKey.map fun layout =>
      { layout with
        key := some
          { position := layout.count
            line := mark.line
            column := mark.column
            required := !layout.inFlow && layout.columns.head? = some mark.column } }
  else some layout

/-! ## Tokens -/

def closeAll (layout : Layout) : Option Layout :=
  (layout.closeBlocks none).dropKey.map (·.allowKey false)

def openFlow (layout : Layout) (mark : Mark) (token : Token) : Option Layout :=
  (layout.startKey mark).map fun layout =>
    ({ layout with
      key := none
      outerKeys := layout.key :: layout.outerKeys
      keyAllowed := true } : Layout).add token

def closeFlow (layout : Layout) (token : Token) : Option Layout :=
  layout.dropKey.map fun layout =>
    let closed :=
      match layout.outerKeys with
      | [] => layout
      | key :: outerKeys => { layout with key, outerKeys }
    (closed.allowKey false).add token

def addFlowEntry (layout : Layout) : Option Layout :=
  layout.dropKey.map fun layout => (layout.allowKey true).add .flowEntry

def openAt (layout : Layout) (column : Nat) (token : Token) : Option Layout :=
  if layout.inFlow then some layout
  else if layout.keyAllowed then some (layout.openBlock column layout.count token)
  else none

def addBlockEntry (layout : Layout) (column : Nat) : Option Layout := do
  let layout ← layout.openAt column .blockSequenceStart
  let layout ← layout.dropKey
  pure ((layout.allowKey true).add .blockEntry)

def addKey (layout : Layout) (column : Nat) : Option Layout := do
  let layout ← layout.openAt column .blockMappingStart
  let layout ← layout.dropKey
  pure ((layout.allowKey (!layout.inFlow)).add .key)

def addValue (layout : Layout) (column : Nat) : Option Layout :=
  match layout.key with
  | some key =>
      let keyed := (layout.insert key.position .key).openBlock key.column key.position
        .blockMappingStart
      some (({ keyed with key := none, keyAllowed := false } : Layout).add .value)
  | none =>
      (layout.openAt column .blockMappingStart).map fun layout =>
        (layout.allowKey (!layout.inFlow)).add .value

end Layout

/-! ## From characters to tokens -/

/-- Pass over blanks, line breaks and comments; a new line of a block may begin with
a key. Tabs are no blanks where a key may begin. A byte order mark in front of a line
is passed over too, although it takes up a column. -/
def skipSpacing (inFlow keyAllowed inComment : Bool) : Marks → Bool × Marks
  | [] => (keyAllowed, [])
  | mark :: rest =>
      if isBreak mark.char then skipSpacing inFlow (keyAllowed || !inFlow) false rest
      else if inComment then skipSpacing inFlow keyAllowed true rest
      else if mark.char = ' ' || (mark.char = '\t' && (inFlow || !keyAllowed)) ||
          (mark.char = '\uFEFF' && mark.column = 0) then
        skipSpacing inFlow keyAllowed false rest
      else if mark.char = '#' then skipSpacing inFlow keyAllowed true rest
      else (keyAllowed, mark :: rest)

def indicators : List Char :=
  ['-', '?', ':', ',', '[', ']', '{', '}', '#', '&', '*', '!', '|', '>', '\'', '"', '%', '@', '`']

def startsPlain (inFlow : Bool) (char : Char) (rest : Marks) : Bool :=
  (!isSpacing char && !indicators.contains char) ||
    (char = '-' && !(Marks.first? rest).any isBlank) ||
    (!inFlow && (char = '?' || char = ':') && !Marks.startsSpacing rest)

def scalarLike (layout : Layout) (mark : Mark) (found : Option (Token × Marks)) :
    Option (Layout × Marks) := do
  let layout ← layout.startKey mark
  let (token, rest) ← found
  pure ((layout.allowKey false).add token, rest)

def nextToken (layout : Layout) (mark : Mark) (rest : Marks) : Option (Layout × Marks) :=
  let marks := mark :: rest
  let inFlow := layout.inFlow
  let single := fun (layout : Option Layout) => layout.map fun layout => (layout, rest)
  if mark.column = 0 && mark.char = '%' then do
    let layout ← layout.closeAll
    let (token, rest) ← directive? rest
    pure (layout.add token, rest)
  else if Marks.startsDocumentMark marks then do
    let layout ← layout.closeAll
    let token := if mark.char = '-' then Token.documentStart else .documentEnd
    pure (layout.add token, rest.drop 2)
  else
    let spacing := Marks.startsSpacing rest
    match mark.char with
    | '[' => single (layout.openFlow mark .flowSequenceStart)
    | '{' => single (layout.openFlow mark .flowMappingStart)
    | ']' => single (layout.closeFlow .flowSequenceEnd)
    | '}' => single (layout.closeFlow .flowMappingEnd)
    | ',' => single layout.addFlowEntry
    | '*' =>
        scalarLike layout mark ((anchorName? rest).map fun (name, rest) => (.reference name, rest))
    | '&' =>
        scalarLike layout mark ((anchorName? rest).map fun (name, rest) => (.anchor name, rest))
    | '!' => scalarLike layout mark (tag? inFlow rest)
    | '\'' | '"' =>
        scalarLike layout mark ((quotedFrom mark.char 0 .none [] rest).map fun (text, rest) =>
          (.scalar false text, rest))
    | char =>
        if char = '-' && spacing then single (layout.addBlockEntry mark.column)
        else if char = '?' && (inFlow || spacing) then single (layout.addKey mark.column)
        else if char = ':' && (inFlow || spacing) then single (layout.addValue mark.column)
        else if (char = '|' || char = '>') && !inFlow then do
          let layout ← layout.dropKey
          let (text, rest) ← block? (char = '>') layout.columns.head? rest
          pure ((layout.allowKey true).add (.scalar false text), rest)
        else if startsPlain inFlow char rest then do
          let layout ← layout.startKey mark
          let margin := layout.columns.head?.elim 0 (· + 1)
          let (text, passedBreak, rest) ← plainFrom inFlow margin .none [] marks
          pure ((layout.allowKey passedBreak).add (.scalar true text), rest)
        else none

/-- Find tokens to the end of the text. Every round takes up a character at least, so
`rounds` need not exceed their number. -/
def tokensFrom (layout : Layout) (marks : Marks) : (rounds : Nat) → Option (List Token)
  | 0 => none
  | rounds + 1 =>
      match skipSpacing layout.inFlow layout.keyAllowed false marks with
      | (_, []) => layout.dropKey.map fun layout => (layout.closeBlocks none).tokens.reverse
      | (keyAllowed, mark :: rest) => do
          let layout ← (layout.allowKey keyAllowed).dropOldKeys mark.line mark.column
          let (layout, marks) ← nextToken (layout.closeBlocks mark.column) mark rest
          tokensFrom layout marks rounds

def tokens? (text : String) : Option (List Token) := do
  let marks ← marks? text
  tokensFrom {} marks (marks.length + 1)

end SolutionLists.Yaml
