import SolutionLists.CommandLine.Manual
import SolutionLists.Generation

namespace SolutionLists.CommandLine

/-! Runs of the program, from its arguments to its exit code. -/

structure Invocation where
  tree : FileTree
  environment : Environment := []
  /-- The directory that the program itself lies in. -/
  programDirectory : Option String := none
  arguments : List String := []

structure Outcome where
  tree : FileTree
  deeds : List FileTree.Deed := []
  exitCode : Nat := 0
  output : String := ""
  errorOutput : String := ""

/-- Quiet runs show no entries, unless they are debugged; others show all but those
for debugging. -/
def isShown (arguments : Arguments) (entry : LogEntry) : Bool :=
  arguments.has .debug || (entry.level ≠ .debug && !arguments.has .quiet)

def logText (arguments : Arguments) (log : Log) : String :=
  String.join ((log.filter (isShown arguments)).map fun entry => entry.line ++ "\n")

def errorText (message helpText : String) : String :=
  "error: " ++ message ++ "\n" ++ helpText

def generationOptions (arguments : Arguments) : GenerationOptions where
  patterns := arguments.patterns
  clean := arguments.has .clean
  verbose := arguments.has .verbose
  debug := arguments.has .debug

def generation (invocation : Invocation) (arguments : Arguments) (indexPath : String) :
    Generation.Run :=
  let (setup, log) := Setup.ofSolution invocation.tree invocation.environment
    (Solution.directoryOf indexPath) invocation.programDirectory
  let run := Generation.run invocation.tree setup indexPath (generationOptions arguments)
  { run with log := log ++ [.info ("Generate CMakeLists " ++ version)] ++ run.log }

def generate (invocation : Invocation) (arguments : Arguments) : Outcome :=
  let failed := fun (message helpText : String) =>
    { tree := invocation.tree, exitCode := 1, errorOutput := errorText message helpText : Outcome }
  match arguments.inputs with
  | [indexPath] =>
      if Solution.isIndexPath indexPath then
        let run := generation invocation arguments indexPath
        let outcome : Outcome :=
          { tree := run.tree, deeds := run.deeds, output := logText arguments run.log }
        match run.result with
        | .ok _ => outcome
        | .error error =>
            { outcome with
              exitCode := 1, errorOutput := errorText error.message error.helpText }
      else
        let error := GenerationError.description (.invalidArgument indexPath)
        failed error.message error.helpText
  | _ => failed "invalid arguments: expected a single <name>.cbuild-idx.yml file" ""

def run (invocation : Invocation) : Outcome :=
  let tree := invocation.tree
  match Arguments.read invocation.arguments with
  | .error .help => { tree, output := manual }
  | .error (.usage fault) => { tree, exitCode := 2, errorOutput := usageText fault }
  | .ok arguments =>
      if arguments.has .version then
        { tree, output := programName ++ " version " ++ version ++ "\n" }
      else
        match arguments.completions with
        | some shell => { tree, output := completions shell }
        | none => generate invocation arguments

/-! ## Reach -/

/-- The paths that a run looks at, as far as the files that are known tell. Files that
would be written are looked at to see whether they change. -/
def reach (invocation : Invocation) : List String :=
  match Arguments.read invocation.arguments with
  | .ok { inputs := [indexPath], flags, patterns, completions } =>
      let tree := invocation.tree
      let directory := Solution.directoryOf indexPath
      let user := UserDirectories.ofEnvironment invocation.environment
      let (setup, _) :=
        Setup.ofSolution tree invocation.environment directory invocation.programDirectory
      let described :=
        match Solution.readIndex tree indexPath with
        | .ok index => index.contexts.map (Solution.contextPath (tree.absolute directory))
        | .error _ => []
      let targets :=
        match (Solution.load tree indexPath).result with
        | .ok solution => solution.cleanTargets solution.contexts
        | .error _ => []
      let run :=
        generation invocation { inputs := [indexPath], flags, patterns, completions } indexPath
      (Configuration.userFile? user).toList ++
        [Configuration.solutionFile directory, indexPath, setup.roots.compiler] ++
        described ++ targets ++ run.deeds.filterMap fun
          | .wrote path _ => some path
          | .removed _ => none
  | _ => []

end SolutionLists.CommandLine
