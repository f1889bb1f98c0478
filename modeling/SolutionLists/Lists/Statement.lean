import SolutionLists.Lists.Line
import SolutionLists.Target.Directive

namespace SolutionLists.Lists

/-! Directives as statements. A statement is a list of lines; its arguments stand on
lines of their own, indented by two blanks. -/

open SolutionLists.Path (variableReference)

def statement (command start : String) (arguments : Lines) : Lines :=
  (command ++ "(" ++ start) :: arguments ++ [")"]

def targetProperty (target property : String) : String :=
  "$<TARGET_PROPERTY:" ++ target ++ "," ++ property ++ ">"

def forLanguage (language : Language) (lines : Lines) : Lines :=
  ("$<$<COMPILE_LANGUAGE:" ++ language.spelling ++ ">:") :: Lines.indent "  " lines ++ [">"]

/-! ## Units -/

def addLibrary (name : String) : LibraryKind → Lines
  | .interface => ["add_library(" ++ name ++ " INTERFACE)"]
  | .object sources =>
      statement "add_library" (name ++ " OBJECT") (Lines.indent "  " (sources.map quoted))

/-! ## Include directories -/

/-- The directories of a map, those of known languages behind a condition. -/
def languagePaths (paths : LanguageMap) : Lines :=
  paths.toList.flatMap fun (language, list) =>
    if language = .all then list.map quoted else forLanguage language (list.map quoted)

def parentIncludePaths : Option (ParentPart LanguageMap) → Lines
  | some (.inherited target) => [targetProperty target "INTERFACE_INCLUDE_DIRECTORIES"]
  | some (.resolved paths) => languagePaths paths
  | none => []

def scopePaths (scope : Scope) (parent : Option (ParentPart LanguageMap))
    (includes : ScopeMap) (current : Scope) : Lines :=
  (if current = scope then parentIncludePaths parent else []) ++
    languagePaths (includes.get current)

/-- With one scope its keyword stands behind the target; with more of them each has
a line of its own. -/
def includeDirectories (target : String) (scope : Scope)
    (parent : Option (ParentPart LanguageMap)) (includes : ScopeMap) : Lines :=
  if includes.toList.all (·.1 = scope) then
    statement "target_include_directories" (target ++ " " ++ scope.spelling)
      (Lines.indent "  " (scopePaths scope parent includes scope))
  else
    let scopes := Scope.list.filter fun current =>
      current = scope || (includes.get? current).isSome
    statement "target_include_directories" target <|
      scopes.flatMap fun current =>
        ("  " ++ current.spelling) ::
          Lines.indent "    " (scopePaths scope parent includes current)

/-! ## Definitions -/

def compileDefinitions (target : String) (scope : Scope)
    (parent : Option (ParentPart (List Define))) (defines : List Define) : Lines :=
  let inherited :=
    match parent with
    | some (.inherited target) => [targetProperty target "INTERFACE_COMPILE_DEFINITIONS"]
    | some (.resolved resolved) => resolved.map Define.text
    | none => []
  statement "target_compile_definitions" (target ++ " " ++ scope.spelling)
    (Lines.indent "  " (inherited ++ defines.map Define.text))

/-! ## Abstractions -/

def setOptionsFlags (abstractions : Abstractions) (language : Language)
    (flagVariable : String) : String :=
  "cbuild_set_options_flags(" ++ language.variableStart ++ " " ++
    " ".intercalate ((abstractions.optionArguments language).map quoted) ++ " " ++
    flagVariable ++ ")"

def abstractionsBundle (owner : String) (abstractions : Abstractions)
    (languages : List Language) : Lines :=
  let served := languages.filter fun language => !abstractions.isEmptyFor language
  let flagVariable := fun (language : Language) =>
    language.variableStart ++ "_OPTIONS_FLAGS_" ++ owner
  ["add_library(" ++ Target.bundleOf owner ++ " INTERFACE)"] ++
    served.map (fun language => setOptionsFlags abstractions language (flagVariable language)) ++
    statement "target_compile_options" (Target.bundleOf owner ++ " INTERFACE")
      (Lines.indent "  " (served.flatMap fun language =>
        forLanguage language ["SHELL:" ++ variableReference (flagVariable language)]))

/-! ## Compile options -/

def languageOptions (root : String) (language : Language) (options : List String) : Lines :=
  if options = [] then []
  else forLanguage language (options.map (Path.anchorOption root))

def preIncludeOptions (files : List String) : Lines :=
  files.map fun file => "SHELL:" ++ variableReference "_PI" ++ quoted file

def compileOptions (root : String) (languages : List Language) (target : String) (scope : Scope)
    (parent : Option String) (misc : Misc) (preIncludes : List String) : Lines :=
  let inherited := parent.toList.map (targetProperty · "INTERFACE_COMPILE_OPTIONS")
  let flags := languages.flatMap fun language =>
    languageOptions root language (misc.compileFlags language)
  statement "target_compile_options" (target ++ " " ++ scope.spelling)
    (Lines.indent "  " (inherited ++ flags ++ preIncludeOptions preIncludes))

/-! ## Sources and libraries -/

/-- The properties of one source. Where it has abstractions, their flags are worked
out in front. -/
def sourceFileProperties (properties : FileProperties) : Lines :=
  let flagVariable := properties.language.variableStart ++ "_OPTIONS_FLAGS"
  let flags : Lines :=
    match properties.abstractions with
    | none => []
    | some abstractions =>
        ["set(" ++ flagVariable ++ ")",
          setOptionsFlags abstractions properties.language flagVariable,
          "separate_arguments(" ++ flagVariable ++ ")"]
  let options := properties.compileOptions ++
    (if properties.abstractions.isSome then [variableReference flagVariable] else [])
  let definitions :=
    if properties.compileDefinitions = [] then []
    else ["COMPILE_DEFINITIONS " ++ quoted (Define.joinTexts ";" properties.compileDefinitions)]
  let compileOptions :=
    if options = [] then [] else ["COMPILE_OPTIONS " ++ quoted (";".intercalate options)]
  flags ++
    statement "set_source_files_properties" (quoted properties.file ++ " PROPERTIES")
      (Lines.indent "  " (definitions ++ compileOptions)) ++
    [""]

def linkLibraries (target : String) (scope : Scope) (libraries : List String) : Lines :=
  statement "target_link_libraries" (target ++ " " ++ scope.spelling)
    (Lines.indent "  " libraries)

/-! ## All directives -/

structure Wording where
  root : String
  languages : List Language
deriving DecidableEq, Repr

def Wording.make (root : String) (languages : List Language) : Wording where
  root
  languages := languages.mergeSort fun first second =>
    Language.buckets.idxOf first ≤ Language.buckets.idxOf second

def directiveLines (wording : Wording) : Directive → Lines
  | .comment text => ["# " ++ text]
  | .blank => [""]
  | .addLibrary name kind => addLibrary name kind
  | .includeDirectories target scope parent includes =>
      includeDirectories target scope parent includes
  | .compileDefinitions target scope parent defines =>
      compileDefinitions target scope parent defines
  | .abstractionsBundle owner abstractions languages =>
      abstractionsBundle owner abstractions languages
  | .compileOptions target scope parent misc preIncludes =>
      compileOptions wording.root wording.languages target scope parent misc preIncludes
  | .linkLibraries target scope libraries => linkLibraries target scope libraries
  | .sourceFileProperties properties => sourceFileProperties properties

def lines (wording : Wording) (directives : List Directive) : Lines :=
  directives.flatMap (directiveLines wording)

end SolutionLists.Lists
