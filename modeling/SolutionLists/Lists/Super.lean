import SolutionLists.Description.Index
import SolutionLists.Lists.Line
import SolutionLists.Path.Anchor
import SolutionLists.Text.Word

namespace SolutionLists.Lists

/-! The lists of the super project, which builds every context as an external project
and runs the commands of the solution. -/

open SolutionLists.Path (variableReference)

/-! ## Contexts and roots -/

structure SuperContext where
  name : String
  /-- Files that its build leaves behind. -/
  outputs : List String
deriving DecidableEq, Repr

namespace SuperContext

def outputPath (outputDirectory file : String) : String :=
  if outputDirectory = "" then file
  else
    String.ofList (outputDirectory.toList.reverse.dropWhile (· = '/')).reverse ++ "/" ++ file

def make (name root outputDirectory : String) (outputs : List String) : SuperContext where
  name
  outputs := outputs.map fun file => Path.anchor root (outputPath outputDirectory file)

end SuperContext

def rootsFile (packRoot compilerRoot solutionRoot : String) : String :=
  let rows :=
    [("CMSIS_PACK_ROOT", packRoot, "CMSIS pack root"),
      ("CMSIS_COMPILER_ROOT", compilerRoot, "CMSIS compiler root"),
      ("SOLUTION_ROOT", solutionRoot, "CMSIS solution root")]
  Lines.file "# roots.cmake" <| rows.flatMap fun (name, value, description) =>
    ["set(" ++ name ++ " " ++ quoted value ++ " CACHE PATH " ++ quoted description ++ ")",
      "cmake_path(ABSOLUTE_PATH " ++ name ++ " NORMALIZE OUTPUT_VARIABLE " ++ name ++ ")"]

/-! ## Commands -/

/-- The variable that a placeholder at the start of a text stands for, and how many
characters the placeholder takes. A placeholder is `$input$` or `$output$`, or has the
number of a file in brackets in front of the last dollar sign. -/
def placeholder? (chars : List Char) : Option (List Char × Nat) :=
  let indexed := fun (name : List Char) (length : Nat) (rest : List Char) =>
    match rest with
    | '$' :: _ => some (name, length + 1)
    | '(' :: rest =>
        let digits := rest.takeWhile Text.isDigit
        match digits, rest.drop digits.length with
        | _ :: _, ')' :: '$' :: _ => some (name ++ '_' :: digits, length + digits.length + 3)
        | _, _ => none
    | _ => none
  match chars with
  | '$' :: 'i' :: 'n' :: 'p' :: 'u' :: 't' :: rest => indexed "INPUT".toList 6 rest
  | '$' :: 'o' :: 'u' :: 't' :: 'p' :: 'u' :: 't' :: rest => indexed "OUTPUT".toList 7 rest
  | _ => none

/-- Put variables in the place of placeholders. `skip` characters belong to one that
has been replaced. -/
def expandFrom (skip : Nat) : List Char → List Char
  | [] => []
  | head :: rest =>
      match skip with
      | skip + 1 => expandFrom skip rest
      | 0 =>
          match placeholder? (head :: rest) with
          | some (name, length) =>
              (variableReference (String.ofList name)).toList ++ expandFrom (length - 1) rest
          | none => head :: expandFrom 0 rest

def expandPlaceholders (run : String) : String :=
  String.ofList (expandFrom 0 run.toList)

def fileList (name : String) (files : List String) : Lines :=
  if files = [] then []
  else
    let paths := Path.anchorAll "" files
    ("set(" ++ name) :: Lines.indent "  " (paths.map quoted) ++ [")"] ++
      paths.zipIdx.map fun (path, index) =>
        "set(" ++ name ++ "_" ++ toString index ++ " " ++ quoted path ++ ")"

def commandSettings (execute : Execute) : Lines :=
  ["", "# Execute: " ++ execute.name] ++ fileList "INPUT" execute.input ++
    fileList "OUTPUT" execute.output

/-- The target of one command. It runs on every build where it always runs or has no
output, and otherwise when an output is missing or older than an input. -/
def commandTarget (execute : Execute) : Lines :=
  let run := expandPlaceholders execute.run
  if execute.always || execute.output = [] then
    ["add_custom_target(" ++ execute.name ++ " ALL", "  COMMAND " ++ run, "  USES_TERMINAL", ")"]
  else
    ["add_custom_target(" ++ execute.name ++ " ALL DEPENDS " ++ variableReference "OUTPUT" ++ ")",
      "add_custom_command(OUTPUT " ++ variableReference "OUTPUT" ++
        (if execute.input = [] then "" else " DEPENDS " ++ variableReference "INPUT"),
      "  COMMAND " ++ run, "  USES_TERMINAL", ")"]

def executeCommand (execute : Execute) : Lines :=
  commandSettings execute ++ commandTarget execute

def executeCommands (executes : List Execute) : Lines :=
  executes.flatMap executeCommand

def dependencyLines (entries : List (String × List String)) : Lines :=
  if entries = [] then []
  else
    ["", "# Build dependencies"] ++ entries.flatMap fun (step, dependencies) =>
      ("add_dependencies(" ++ step) :: Lines.indent "  " dependencies ++ [")"]

/-! ## The whole project -/

structure SuperProject where
  /-- Path of the solution file. -/
  solution : String
  contexts : List SuperContext
  executes : List Execute
  /-- Steps that wait for others, with what they wait for. -/
  dependencies : List (String × List String)
  generator : String
  /-- Show the output of builds as they run. -/
  verbose : Bool
deriving DecidableEq, Repr

def projectName (solution : String) : String :=
  let name := String.ofList
    (solution.toList.reverse.takeWhile fun char => char ≠ '/' ∧ char ≠ '\\').reverse
  ((Text.stripEnd? name ".csolution.yml").or (Text.stripEnd? name ".csolution.yaml")).getD name

def generatorArgument (generator : String) : String :=
  if ' ' ∈ generator.toList then quoted generator else generator

def projectTarget (context : String) : String :=
  String.ofList (context.toList.map fun char => if char = ' ' then '_' else char)

def outputLists (contexts : List SuperContext) : Lines :=
  contexts.zipIdx.flatMap fun (context, index) =>
    ("set(OUTPUTS_" ++ toString (index + 1)) ::
      Lines.indent "  " (context.outputs.map quoted) ++ [")"]

def contextLoop (project : SuperProject) : Lines :=
  let generator := generatorArgument project.generator
  let verbosity := if project.verbose then " --verbose" else ""
  let command := variableReference "CMAKE_COMMAND"
  let context := variableReference "CONTEXT"
  let directory := variableReference "DIR"
  let index := variableReference "INDEX"
  let number := variableReference "N"
  ["# Iterate over contexts",
    "foreach(INDEX RANGE " ++ variableReference "CONTEXTS_LENGTH" ++ ")",
    "",
    "  math(EXPR N \"" ++ index ++ "+1\")",
    "  list(GET CONTEXTS " ++ index ++ " CONTEXT)",
    "  list(GET DIRS " ++ index ++ " DIR)",
    "",
    "  # Create external project, set configure and build steps",
    "  ExternalProject_Add(" ++ context,
    "    PREFIX                " ++ directory,
    "    SOURCE_DIR            " ++ directory,
    "    BINARY_DIR            " ++ number,
    "    INSTALL_COMMAND       \"\"",
    "    TEST_COMMAND          \"\"",
    "    CONFIGURE_COMMAND     " ++ command ++ " -G " ++ generator ++
      " -S <SOURCE_DIR> -B <BINARY_DIR> " ++ variableReference "ARGS",
    "    BUILD_COMMAND         " ++ command ++ " -E echo \"Building CMake target '" ++ context ++
      "'\"",
    "    COMMAND               " ++ command ++ " --build <BINARY_DIR>" ++ verbosity,
    "    BUILD_ALWAYS          TRUE",
    "    BUILD_BYPRODUCTS      " ++ variableReference ("OUTPUTS_" ++ number)] ++
  (if project.verbose then []
    else ["    LOG_CONFIGURE         ON", "    LOG_OUTPUT_ON_FAILURE ON"]) ++
  ["    USES_TERMINAL_BUILD   ON",
    "  )",
    "",
    "  # Executes command step",
    "  ExternalProject_Add_Step(" ++ context ++ " executes",
    "    DEPENDEES         build",
    "  )",
    "",
    "  ExternalProject_Add_StepTargets(" ++ context ++ " build configure executes)",
    "",
    "  # Debug",
    "  message(VERBOSE \"Configure Context: " ++ command ++ " -G " ++ generator ++ " -S " ++
      directory ++ " -B " ++ number ++ "\")",
    "",
    "  # Database generation step",
    "  ExternalProject_Add_Step(" ++ context ++ " database",
    "    COMMAND           " ++ command ++ " --build <BINARY_DIR> --target database" ++ verbosity,
    "    ALWAYS            TRUE"] ++
  (if project.verbose then [] else ["    LOG               TRUE"]) ++
  ["    USES_TERMINAL     ON",
    "    DEPENDEES         configure",
    "  )",
    "  ExternalProject_Add_StepTargets(" ++ context ++ " database)",
    "  add_dependencies(database " ++ context ++ "-database)",
    "",
    "endforeach()"]

def superLists (project : SuperProject) : String :=
  let sourceDirectory := variableReference "CMAKE_CURRENT_SOURCE_DIR"
  let argument := fun (name : String) => "  \"-D" ++ name ++ "=" ++ variableReference name ++ "\""
  Lines.file "cmake_minimum_required(VERSION 3.27)" <|
    ["include(ExternalProject)",
      "",
      "project(" ++ quoted (projectName project.solution) ++ " NONE)",
      "",
      "# Roots",
      "include(\"roots.cmake\")",
      "",
      "# Context specific lists",
      "set(CONTEXTS"] ++
    project.contexts.map (fun context => "  " ++ quoted (projectTarget context.name)) ++
    [")",
      "list(LENGTH CONTEXTS CONTEXTS_LENGTH)",
      "math(EXPR CONTEXTS_LENGTH \"" ++ variableReference "CONTEXTS_LENGTH" ++ "-1\")",
      "",
      "set(DIRS"] ++
    project.contexts.map (fun context => "  " ++ quoted (sourceDirectory ++ "/" ++ context.name)) ++
    [")", ""] ++
    outputLists project.contexts ++
    ["",
      "set(ARGS",
      argument "SOLUTION_ROOT",
      argument "CMSIS_PACK_ROOT",
      argument "CMSIS_COMPILER_ROOT",
      ")",
      "",
      "# Compilation database",
      "add_custom_target(database)",
      ""] ++
    contextLoop project ++
    executeCommands project.executes ++
    dependencyLines project.dependencies

example : expandPlaceholders "$input(0)$ $x$ $output$" =
    variableReference "INPUT_0" ++ " $x$ " ++ variableReference "OUTPUT" := by decide +kernel

end SolutionLists.Lists
