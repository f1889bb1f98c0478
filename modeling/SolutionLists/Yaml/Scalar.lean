import SolutionLists.Text.Number
import SolutionLists.Yaml.Mark

namespace SolutionLists.Yaml

/-! Scalars as they are written: quoted, plain, and in blocks. Every reader goes
through the characters once and returns the text with the characters behind it. -/

/-! ## White space inside a scalar -/

inductive Gap where
  | none
  /-- Blanks on one line, the last one in front. -/
  | blanks (reversed : List Char)
  /-- Line breaks, of which blanks around them are no part. The first one is missing
  where it has been escaped; the others stand with the last one in front. -/
  | breaks (first : Option Char) (reversed : List Char)
deriving DecidableEq, Repr

namespace Gap

def add (gap : Gap) (char : Char) : Gap :=
  if isBlank char then
    match gap with
    | none => blanks [char]
    | blanks reversed => blanks (char :: reversed)
    | breaks first reversed => breaks first reversed
  else
    match gap with
    | breaks first reversed => breaks first (char :: reversed)
    | _ => breaks (some char) []

def text : Gap → List Char
  | none => []
  | blanks reversed => reversed.reverse
  | breaks (some '\n') [] => [' ']
  | breaks (some '\n') reversed => reversed.reverse
  | breaks first reversed => first.toList ++ reversed.reverse

def isBreaks : Gap → Bool
  | breaks .. => true
  | _ => false

end Gap

/-! ## Quoted scalars -/

def simpleEscapes : List (Char × Char) :=
  [('0', '\x00'), ('a', '\x07'), ('b', '\x08'), ('t', '\t'), ('\t', '\t'), ('n', '\n'),
    ('v', '\x0b'), ('f', '\x0c'), ('r', '\r'), ('e', '\x1b'), (' ', ' '), ('"', '"'),
    ('/', '/'), ('\\', '\\'), ('N', '\u0085'), ('_', '\u00a0'), ('L', '\u2028'),
    ('P', '\u2029')]

def codeEscapes : List (Char × Nat) := [('x', 2), ('u', 4), ('U', 8)]

def escape? : List Char → Option (Char × Nat)
  | [] => none
  | kind :: rest =>
      match simpleEscapes.lookup kind, codeEscapes.lookup kind with
      | some char, _ => some (char, 1)
      | none, some digits =>
          if rest.length < digits then none
          else
            ((Text.natural? 16 (rest.take digits)).bind Text.charOfCode?).map
              fun char => (char, digits + 1)
      | none, none => none

/-- The rest of a quoted scalar. `skip` characters belong to what has been read;
`reversed` is the text so far, the last character in front. -/
def quotedFrom (quote : Char) (skip : Nat) (gap : Gap) (reversed : List Char) :
    Marks → Option (String × Marks)
  | [] => none
  | mark :: rest =>
      match skip with
      | skip + 1 => quotedFrom quote skip gap reversed rest
      | 0 =>
          if isSpacing mark.char then quotedFrom quote 0 (gap.add mark.char) reversed rest
          else if Marks.startsDocumentMark (mark :: rest) then none
          else
            let reversed := gap.text.reverse ++ reversed
            if mark.char = quote then
              if quote = '\'' && Marks.first? rest = some '\'' then
                quotedFrom quote 1 .none ('\'' :: reversed) rest
              else some (String.ofList reversed.reverse, rest)
            else if mark.char = '\\' && quote = '"' then
              if (Marks.first? rest).any isBreak then
                quotedFrom quote 1 (.breaks none []) reversed rest
              else
                match escape? ((rest.take 9).map Mark.char) with
                | some (char, length) => quotedFrom quote length .none (char :: reversed) rest
                | none => none
            else quotedFrom quote 0 .none (mark.char :: reversed) rest

/-! ## Plain scalars -/

def flowIndicators : List Char := [',', '[', ']', '{', '}']

abbrev PlainEnd := String × Bool × Marks

def plainFrom (inFlow : Bool) (margin : Nat) (gap : Gap) (reversed : List Char) :
    Marks → Option PlainEnd
  | [] => some (String.ofList reversed.reverse, gap.isBreaks, [])
  | mark :: rest =>
      let ended := some (String.ofList reversed.reverse, gap.isBreaks, mark :: rest)
      if isSpacing mark.char then
        if gap.isBreaks && mark.column < margin && mark.char = '\t' then none
        else plainFrom inFlow margin (gap.add mark.char) reversed rest
      else if gap ≠ .none &&
          ((!inFlow && mark.column < margin) || Marks.startsDocumentMark (mark :: rest) ||
            mark.char = '#') then ended
      else if inFlow && mark.char = ':' &&
          (Marks.first? rest).any (fun next => next = '?' || flowIndicators.contains next) then none
      else if (mark.char = ':' && Marks.startsSpacing rest) ||
          (inFlow && flowIndicators.contains mark.char) then ended
      else plainFrom inFlow margin .none (mark.char :: (gap.text.reverse ++ reversed)) rest

/-! ## Block scalars -/

inductive Chomping where
  | strip
  | clip
  | keep
deriving DecidableEq, Repr

structure BlockHeader where
  folded : Bool
  chomping : Chomping
  /-- How far the lines are indented beyond the parent, where this is said. -/
  increment : Option Nat
deriving DecidableEq, Repr

def chomping? : Char → Option Chomping
  | '+' => some .keep
  | '-' => some .strip
  | _ => none

def increment? (char : Char) : Option Nat :=
  if '1' ≤ char ∧ char ≤ '9' then some (char.toNat - '0'.toNat) else none

def blockIndicators (folded : Bool) : List Char → BlockHeader × Nat
  | first :: second :: _ =>
      match chomping? first, increment? first with
      | some chomping, _ =>
          match increment? second with
          | some increment => (⟨folded, chomping, some increment⟩, 2)
          | none => (⟨folded, chomping, none⟩, 1)
      | none, some increment =>
          match chomping? second with
          | some chomping => (⟨folded, chomping, some increment⟩, 2)
          | none => (⟨folded, .clip, some increment⟩, 1)
      | none, none => (⟨folded, .clip, none⟩, 0)
  | [first] =>
      match chomping? first, increment? first with
      | some chomping, _ => (⟨folded, chomping, none⟩, 1)
      | none, some increment => (⟨folded, .clip, some increment⟩, 1)
      | none, none => (⟨folded, .clip, none⟩, 0)
  | [] => (⟨folded, .clip, none⟩, 0)

def blockHeader? (folded : Bool) (marks : Marks) : Option (BlockHeader × Marks) :=
  let (header, length) := blockIndicators folded ((marks.take 2).map (·.char))
  let rest := (Marks.span (marks.drop length) isBlank).2
  let rest := if Marks.first? rest = some '#' then (Marks.span rest (!isBreak ·)).2 else rest
  if Marks.startsBreak rest then some (header, rest.drop 1) else none

structure BlockState where
  /-- The column at which lines begin, once it is known. -/
  indent : Option Nat
  /-- The furthest column reached by the blanks in front of the first line. -/
  reached : Nat := 0
  /-- The text so far, the last character in front. -/
  reversed : List Char := []
  inLine : Bool := false
  /-- The line break behind the last line. -/
  lineBreak : Option Char := none
  /-- Line breaks of empty lines behind it, the last one in front. -/
  emptyLines : List Char := []
  /-- Whether the last line began with a blank. -/
  startsBlank : Bool := false
deriving DecidableEq, Repr

namespace BlockState

/-- Write what separates the line before from one that begins with `char`. Between
two lines that do not begin with a blank a folded block has no line break. -/
def beginLine (state : BlockState) (folded : Bool) (char : Char) : BlockState :=
  let blank := isBlank char
  let separator :=
    if folded && state.lineBreak = some '\n' && !state.startsBlank && !blank then
      if state.emptyLines = [] then [' '] else state.emptyLines
    else state.emptyLines ++ state.lineBreak.toList
  { state with
    reversed := char :: (separator ++ state.reversed)
    inLine := true
    lineBreak := none
    emptyLines := []
    startsBlank := blank }

def finish (state : BlockState) (chomping : Chomping) : String :=
  let last := if chomping = .strip then [] else state.lineBreak.toList
  let empty := if chomping = .keep then state.emptyLines else []
  String.ofList (empty ++ last ++ state.reversed).reverse

def indentAt (state : BlockState) (least column : Nat) : Nat :=
  state.indent.getD (max (max state.reached column) least)

end BlockState

/-- The rest of a block scalar. Where its header does not say so, the first line that
is not empty settles the indentation, which is at least `least`. -/
def blockFrom (header : BlockHeader) (least : Nat) (state : BlockState) :
    Marks → Option (String × Marks)
  | [] => some (state.finish header.chomping, [])
  | mark :: rest =>
      if state.inLine then
        if isBreak mark.char then
          blockFrom header least { state with inLine := false, lineBreak := some mark.char } rest
        else
          blockFrom header least { state with reversed := mark.char :: state.reversed } rest
      else
        let inMargin := state.indent.all (mark.column < ·)
        if mark.char = ' ' && inMargin then blockFrom header least state rest
        else if mark.char = '\t' && inMargin then none
        else if isBreak mark.char then
          blockFrom header least
            { state with
              reached := max state.reached mark.column
              emptyLines := mark.char :: state.emptyLines } rest
        else
          let indent := state.indentAt least mark.column
          if mark.column = indent then
            blockFrom header least
              ({ state with indent := some indent }.beginLine header.folded mark.char) rest
          else some (state.finish header.chomping, mark :: rest)

def block? (folded : Bool) (parent : Option Nat) (marks : Marks) : Option (String × Marks) :=
  match blockHeader? folded marks with
  | none => none
  | some (header, rest) =>
      let indent := header.increment.map fun increment => parent.getD 0 + increment
      blockFrom header (max 1 (parent.elim 0 (· + 1))) { indent } rest

end SolutionLists.Yaml
