import SolutionLists.Document.Value

namespace SolutionLists.Toml

/-! Tables while a configuration file is read. How a table has come about decides what
may be added to it. -/

open Document (Value)

inductive Origin where
  /-- The table has a header of its own, or is the whole file. -/
  | header
  /-- It is named by the header of a table inside it. -/
  | implied
  /-- It is named by a key with several parts. -/
  | dotted
deriving DecidableEq, Repr

inductive Item where
  | value (value : Value)
  | table (origin : Origin) (entries : List (String × Item))
  /-- Tables under a header that is repeated, the last one in front. -/
  | tables (reversed : List (List (String × Item)))
deriving Repr, Inhabited

abbrev Entries := List (String × Item)

namespace Item

mutual

def toValue : Item → Value
  | .value content => content
  | .table _ entries => .record (toEntries entries)
  | .tables reversed => .list (toRecords reversed).reverse

def toEntries : List (String × Item) → List (String × Value)
  | [] => []
  | (key, item) :: rest => (key, item.toValue) :: toEntries rest

def toRecords : List (List (String × Item)) → List Value
  | [] => []
  | entries :: rest => .record (toEntries entries) :: toRecords rest

end

end Item

namespace Entries

def put (entries : Entries) (key : String) (item : Item) : Entries :=
  if entries.any (·.1 = key) then
    entries.map fun (other, old) => (other, if other = key then item else old)
  else entries ++ [(key, item)]

/-- Add a value below keys of a table. The tables on the way are dotted ones, or the
last of repeated ones; the one that takes the value must be dotted, unless it is the
first. `open_` tells whether the table at hand takes it. -/
def addValue (entries : Entries) (value : Value) (open_ : Bool) :
    (path : List String) → Option Entries
  | [] => none
  | [key] =>
      if open_ && (entries.lookup key).isNone then some (entries.put key (.value value)) else none
  | key :: rest =>
      match entries.lookup key with
      | none =>
          (addValue [] value true rest).map fun inner => entries.put key (.table .dotted inner)
      | some (.value _) => none
      | some (.table .header _) => none
      | some (.table origin inner) =>
          (addValue inner value (origin = .dotted) rest).map fun inner =>
            entries.put key (.table origin inner)
      | some (.tables []) => none
      | some (.tables (last :: before)) =>
          (addValue last value false rest).map fun last =>
            entries.put key (.tables (last :: before))

/-- Change what stands below keys, through tables of any origin. Tables that are
missing on the way are implied. -/
def changeAt (entries : Entries) (change : Option Item → Option Item) :
    (path : List String) → Option Entries
  | [] => none
  | [key] => (change (entries.lookup key)).map (entries.put key)
  | key :: rest =>
      match entries.lookup key with
      | none => (changeAt [] change rest).map fun inner => entries.put key (.table .implied inner)
      | some (.value _) => none
      | some (.table origin inner) =>
          (changeAt inner change rest).map fun inner => entries.put key (.table origin inner)
      | some (.tables []) => none
      | some (.tables (last :: before)) =>
          (changeAt last change rest).map fun last => entries.put key (.tables (last :: before))

def openTable (entries : Entries) (path : List String) : Option Entries :=
  path |> entries.changeAt fun
    | none => some (.table .header [])
    | some (.table .implied inner) => some (.table .header inner)
    | some _ => none

def addTable (entries : Entries) (path : List String) : Option Entries :=
  path |> entries.changeAt fun
    | none => some (.tables [[]])
    | some (.tables reversed) => some (.tables ([] :: reversed))
    | some _ => none

def addBelow (entries : Entries) (header path : List String) (value : Value) : Option Entries :=
  if header = [] then entries.addValue value true path
  else
    header |> entries.changeAt fun
      | some (.table origin inner) => (Entries.addValue inner value true path).map (.table origin)
      | some (.tables (last :: before)) =>
          (Entries.addValue last value true path).map fun last => .tables (last :: before)
      | _ => none

end Entries

end SolutionLists.Toml
