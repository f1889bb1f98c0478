import SolutionLists.Text.Search

namespace SolutionLists.Path

/-! Paths as texts. Nothing here looks at a file system: a path is the list of
its segments between slashes. -/

abbrev Segment := List Char

def ascend : Segment := ['.', '.']

def forwardSlash (char : Char) : Char :=
  if char = '\\' then '/' else char

def forwardSlashes (path : String) : String :=
  String.ofList (path.toList.map forwardSlash)

def isRooted (path : String) : Bool :=
  path.toList.head? == some '/'

/-- Put one segment on the segments kept so far, newest first. An ascent takes
away the newest name; with none left it stays where it is in a rooted path and
is kept in a relative one. -/
def pushSegment (rooted : Bool) (kept : List Segment) (segment : Segment) : List Segment :=
  if segment = [] ∨ segment = ['.'] then kept
  else if segment = ascend then
    match kept with
    | [] => if rooted then [] else [ascend]
    | newest :: older =>
        if newest ≠ ascend then older
        else if rooted then newest :: older
        else ascend :: newest :: older
  else segment :: kept

def cleanSegments (path : String) : List Segment :=
  ((path.toList.splitOn '/').foldl (pushSegment (isRooted path)) []).reverse

/-- The path without empty and `.` segments and without `name/..` pairs. A
relative path keeps its leading ascents; what is left empty is `.`. -/
def clean (path : String) : String :=
  let joined := ['/'].intercalate (cleanSegments path)
  if isRooted path then String.ofList ('/' :: joined)
  else if joined.isEmpty then "."
  else String.ofList joined

def parent (path : String) : String :=
  match (clean path).toList.reverse.dropWhile (· ≠ '/') with
  | [] => "."
  | [_] => "/"
  | _ :: above => String.ofList above.reverse

/-- Absolute on any host: from the root, or from the root of a drive. -/
def isAbsolute (path : String) : Bool :=
  match path.toList with
  | '/' :: _ => true
  | drive :: ':' :: slash :: _ => drive.isAlpha && (slash == '/' || slash == '\\')
  | _ => false

example : clean "../x/../../y" = "../../y" := by decide
example : clean "/a/../../b" = "/b" := by decide
example : clean "./" = "." := by decide
example : parent "./headers/header.h" = "headers" := by decide
example : parent "/header.h" = "/" := by decide

end SolutionLists.Path
