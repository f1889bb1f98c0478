import SolutionLists.Path.Lexical

namespace SolutionLists.Path

/-! Paths as a file system walks them: a sequence of components. Only `/`
separates, repeated separators count once, and `.` counts at the start alone. -/

inductive Component where
  | root
  | current
  | above
  | name (text : String)
deriving DecidableEq, Repr

namespace Component

def toText : Component → String
  | root => "/"
  | current => "."
  | above => ".."
  | name text => text

def ofSegment? (segment : Segment) : Option Component :=
  if segment = [] ∨ segment = ['.'] then none
  else if segment = ascend then some above
  else some (name (String.ofList segment))

end Component

def components (path : String) : List Component :=
  match path.toList.splitOn '/' with
  | [] => []
  | first :: rest =>
      let start :=
        if isRooted path then [.root]
        else if first = ['.'] then [.current]
        else (Component.ofSegment? first).toList
      start ++ rest.filterMap Component.ofSegment?

def ofComponents (parts : List Component) : String :=
  match parts with
  | .root :: rest => "/" ++ "/".intercalate (rest.map Component.toText)
  | _ => "/".intercalate (parts.map Component.toText)

/-- The steps from the end of `base` to the end of `path`. `apart` holds once the
two have parted. There are none when an ascent of `base` would have to be undone. -/
def stepsFrom (apart : Bool) : (base path : List Component) → Option (List Component)
  | [], path => some path
  | _ :: base, [] => (stepsFrom true base []).map (Component.above :: ·)
  | there :: base, here :: path =>
      if !apart && here = there then stepsFrom false base path
      else if there = .current then (stepsFrom true base path).map (here :: ·)
      else if there = .above then none
      else some (.above :: base.map (fun _ => Component.above) ++ here :: path)

/-- The path that leads from the directory `base` to `path`; `path` itself where
only one of them is rooted or no path leads there. -/
def relativeTo (base path : String) : String :=
  if isRooted base == isRooted path then
    match stepsFrom false (components base) (components path) with
    | some steps => "/".intercalate (steps.map Component.toText)
    | none => path
  else path

def join (directory path : String) : String :=
  if isRooted path then path
  else if directory.isEmpty then path
  else if directory.toList.getLast? = some '/' then directory ++ path
  else directory ++ "/" ++ path

/-- The segments of a path text without its last `count` components: the text is
kept as it was written, less the separators and single dots at its new end. -/
def dropLastComponent? (path : String) : Option String :=
  let skips := fun (segment : Segment) => segment = [] ∨ segment = ['.']
  match ((path.toList.splitOn '/').reverse).dropWhile (skips ·) with
  | [] => if isRooted path then none else if path.isEmpty then none else some ""
  | _ :: above =>
      match above.dropWhile (skips ·) with
      | [] =>
          if isRooted path then some "/"
          else match above.getLast? with
            | some ['.'] => some "."
            | _ => some ""
      | kept => some (String.ofList (['/'].intercalate kept.reverse))

def fileName? (path : String) : Option String :=
  match (components path).getLast? with
  | some (.name text) => some text
  | _ => none

example : relativeTo "/solution" "/solution/project/sub" = "project/sub" := by decide
example : dropLastComponent? "/a" = some "/" := by decide
example : dropLastComponent? "a//./b/" = some "a" := by decide

end SolutionLists.Path
