import SolutionLists.Description.File
import SolutionLists.Path.Anchor
import SolutionLists.Session

namespace SolutionLists

/-! The files of a group or component sorted by what the build does with them. -/

structure Classification where
  /-- No plain source: the unit only hands on settings. -/
  interface : Bool := false
  includes : ScopeMap := {}
  source : LanguageMap := {}
  /-- Sources that get a unit of their own. -/
  custom : LanguageMap := {}
  library : List String := []
  object : List String := []
  preIncludeLocal : List String := []
deriving DecidableEq, Repr, Inhabited

namespace Classification

/-- The directory that a header or include file makes visible: a header the one it
lies in, an include itself. -/
def includeDirectory (root : String) (file : File) : String :=
  Path.anchor root <|
    if file.role = .header then Path.parent file.path else Path.clean file.path

/-- Users alone see the includes of a unit that compiles nothing. -/
def includeScope (interface : Bool) (file : File) : Scope :=
  if interface then .interface else file.scope

/-- Directories of configuration headers go in front of the others. -/
def placeInclude (file : File) (directories : List String) (directory : String) : List String :=
  if file.isConfig then Ordered.insertFirst directories directory
  else Ordered.insertLast directories directory

def add (root : String) (sorted : Classification) (file : File) : Classification :=
  if file.isTemplate then sorted
  else
    let path := Path.anchor root file.path
    match file.role with
    | .header | .includeDirectory =>
        { sorted with
          includes := sorted.includes.update (includeScope sorted.interface file) fun languages =>
            languages.update file.language fun directories =>
              placeInclude file directories (includeDirectory root file) }
    | .source =>
        if file.hasCustomOptions then
          { sorted with custom := sorted.custom.update file.language (· ++ [path]) }
        else
          { sorted with source := sorted.source.update file.language (· ++ [path]) }
    | .library => { sorted with library := sorted.library ++ [path] }
    | .object => { sorted with object := sorted.object ++ [path] }
    | .preIncludeLocal => { sorted with preIncludeLocal := sorted.preIncludeLocal ++ [path] }
    | .preIncludeGlobal | .other => sorted

def ofFiles (root : String) (files : List File) : Classification :=
  files.foldl (add root) { interface := !files.any (·.isPlainSource) }

def finding? (root : String) (file : File) : Option Session.Finding :=
  if file.isTemplate then none
  else
    match file.role with
    | .source => some (.language file.language)
    | .preIncludeGlobal => some (.preInclude (Path.anchor root file.path))
    | _ => none

def findings (root : String) (files : List File) : List Session.Finding :=
  files.filterMap (finding? root)

def hasContent (sorted : Classification) : Bool :=
  !sorted.source.isEmpty || !sorted.custom.isEmpty || !sorted.includes.isEmpty ||
    !sorted.library.isEmpty || !sorted.object.isEmpty

def languages (sorted : Classification) : List Language :=
  (sorted.source.toList ++ sorted.custom.toList).foldl
    (fun languages (language, _) => Ordered.append languages language.singles) []

end Classification

end SolutionLists
