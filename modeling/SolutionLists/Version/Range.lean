import SolutionLists.Version.Basic

namespace SolutionLists.Version

/-! Sets of versions. Cuts stand between versions, each right below or right above
one; a set is given by whether it holds the lowest versions and by the cuts at which
membership changes. -/

structure Cut where
  version : Version
  above : Bool
deriving DecidableEq, Repr

namespace Cut

def order (left right : Cut) : Ordering :=
  (left.version.order right.version).then (compare left.above.toNat right.above.toNat)

def isBelow (cut : Cut) (version : Version) : Bool :=
  match cut.version.order version with
  | .lt => true
  | .eq => !cut.above
  | .gt => false

end Cut

/-- Cuts are kept in ascending order. -/
structure Range where
  holdsLowest : Bool
  cuts : List Cut
deriving DecidableEq, Repr

namespace Range

def empty : Range := ⟨false, []⟩

def full : Range := ⟨true, []⟩

def atLeast (version : Version) : Range := ⟨false, [⟨version, false⟩]⟩

def below (version : Version) : Range := ⟨true, [⟨version, false⟩]⟩

def between (first last : Version) : Range := ⟨false, [⟨first, false⟩, ⟨last, false⟩]⟩

def complement (range : Range) : Range := { range with holdsLowest := !range.holdsLowest }

/-- Membership changes at every cut that is passed. -/
def contains (range : Range) (version : Version) : Bool :=
  range.cuts.foldl (fun inside cut => if cut.isBelow version then !inside else inside)
    range.holdsLowest

/-- Pass the cuts of two sets from below and keep those at which the combination of
the two memberships changes. -/
def sweep (combine : Bool → Bool → Bool) (left right : Bool) :
    List Cut → List Cut → List Cut
  | [], [] => []
  | first :: rest, [] =>
      keep first (combine left right) (combine (!left) right)
        (sweep combine (!left) right rest [])
  | [], second :: rest =>
      keep second (combine left right) (combine left (!right))
        (sweep combine left (!right) [] rest)
  | first :: firsts, second :: seconds =>
      match first.order second with
      | .lt =>
          keep first (combine left right) (combine (!left) right)
            (sweep combine (!left) right firsts (second :: seconds))
      | .gt =>
          keep second (combine left right) (combine left (!right))
            (sweep combine left (!right) (first :: firsts) seconds)
      | .eq =>
          keep first (combine left right) (combine (!left) (!right))
            (sweep combine (!left) (!right) firsts seconds)
termination_by firsts seconds => firsts.length + seconds.length
where
  /-- Keep a cut at which something changes. -/
  keep (cut : Cut) (before after : Bool) (rest : List Cut) : List Cut :=
    if before = after then rest else cut :: rest

def combine (operation : Bool → Bool → Bool) (left right : Range) : Range where
  holdsLowest := operation left.holdsLowest right.holdsLowest
  cuts := sweep operation left.holdsLowest right.holdsLowest left.cuts right.cuts

def union (left right : Range) : Range := combine (· || ·) left right

def intersection (left right : Range) : Range := combine (· && ·) left right

/-! ## Text -/

def lowerText (cut : Cut) : String :=
  (if cut.above then ">" else ">=") ++ cut.version.text

def upperText (cut : Cut) : String :=
  (if cut.above then "<=" else "<") ++ cut.version.text

def intervalTexts : List Cut → List String
  | [] => []
  | [first] => [lowerText first]
  | first :: last :: rest =>
      (if first.version = last.version then first.version.text
        else lowerText first ++ ", " ++ upperText last) :: intervalTexts rest

def text (range : Range) : String :=
  match range.holdsLowest, range.cuts with
  | false, [] => "∅"
  | true, [] => "*"
  | false, cuts => " | ".intercalate (intervalTexts cuts)
  | true, first :: rest => " | ".intercalate (upperText first :: intervalTexts rest)

end Range

end SolutionLists.Version
