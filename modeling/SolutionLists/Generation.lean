import SolutionLists.Cleaning
import SolutionLists.Description.Writing
import SolutionLists.Document.Json
import SolutionLists.Files.Progress
import SolutionLists.Lists.Context
import SolutionLists.Lists.Super
import SolutionLists.Selection
import SolutionLists.Setup
import SolutionLists.Steps.Dependencies
import SolutionLists.Toolchain.Discovery

namespace SolutionLists

/-! Generation of the lists of a solution. Everything is settled before the first file
is written, so a fault in a description leaves the files as they are. -/

/-! ## Faults -/

inductive GenerationError where
  | description (error : DescriptionError)
  | selection (error : SelectionError)
  | discovery (error : ToolchainError)
  /-- No toolchain for a context. -/
  | toolchain (context : String) (error : ToolchainError)
  | cycle (error : Steps.CycleError)
  | files (failure : FileTree.Failure)
deriving Repr

namespace GenerationError

def message : GenerationError → String
  | description error => error.message
  | selection error => error.message
  | discovery error => error.message
  | toolchain context error => "processing context " ++ context ++ ": " ++ error.message
  | cycle error => error.message
  | files failure => failure.message

def report? (error : GenerationError) : Option ErrorReport :=
  let report? : Option ErrorReport :=
    match error with
    | description error => some error.report
    | discovery error | toolchain _ error => some error.report
    | cycle error => some error.report
    | selection _ | files _ => none
  report?.map fun report => { report with message := error.message }

def helpText (error : GenerationError) : String :=
  (error.report?.map fun report => report.diagnostic.helpText false).getD ""

end GenerationError

/-! ## Choice of contexts -/

structure GenerationOptions where
  /-- Patterns for the contexts to generate; without any it is all of them. -/
  patterns : List String := []
  /-- Remove the directories of results first. -/
  clean : Bool := false
  /-- Show the output of builds as they run. -/
  verbose : Bool := false
  /-- Log the descriptions. -/
  debug : Bool := false
deriving DecidableEq, Repr

structure ChosenContexts where
  solution : Solution
  contexts : List ContextDescription
deriving Repr

namespace ChosenContexts

def choose (tree : FileTree) (indexPath : String) (patterns : List String) :
    Logged GenerationError ChosenContexts :=
  match Solution.load tree indexPath with
  | { log, result := .error error } => { log, result := .error (.description error) }
  | { log, result := .ok solution } =>
      match Solution.select solution.contexts patterns with
      | .error error => { log, result := .error (.selection error) }
      | .ok contexts => { log, result := .ok { solution, contexts } }

def dump (chosen : ChosenContexts) : Log :=
  let entry := fun (path : String) (document : Document.Value) =>
    LogEntry.debug (path ++ ":\n" ++ document.jsonLines)
  entry chosen.solution.indexPath chosen.solution.index.document ::
    chosen.contexts.map fun description => entry description.path description.context.document

/-! ## Lists -/

/-- The toolchains there are. They are looked for only where a context needs one. -/
def catalog (chosen : ChosenContexts) (tree : FileTree) (setup : Setup) :
    Logged GenerationError ToolchainCatalog :=
  if chosen.contexts.isEmpty then { result := .ok {} }
  else
    match ToolchainCatalog.discover tree setup.roots.compiler setup.environment
        setup.configuration with
    | .error error => { result := .error (.discovery error) }
    | .ok catalog =>
        { log := Toolchain.registrationLog setup.configuration, result := .ok catalog }

/-- Settle one context after the other, up to the first without a toolchain. -/
def plans (catalog : ToolchainCatalog) :
    List ContextDescription → Logged GenerationError (List (String × ContextPlan))
  | [] => { result := .ok [] }
  | description :: rest =>
      match catalog.select description.context.compiler with
      | .error error => { result := .error (.toolchain description.name error) }
      | .ok toolchain =>
          let plan := ContextPlan.make description.context description.root toolchain
          ((plans catalog rest).map ((description.name, plan) :: ·)).after <|
            .debug ("context " ++ description.name ++ ": " ++ toolchain.name ++ " " ++
              toolchain.version.text ++ " with " ++ toolchain.config) ::
            plan.tree.warnings.map .warning

def references (chosen : ChosenContexts) : List ContextReference :=
  chosen.contexts.map fun description =>
    { description.reference with project := description.name, configuration := "" }

def superContext (description : ContextDescription) : Lists.SuperContext :=
  .make description.name description.root description.context.directories.output
    (description.context.outputs.map (·.file))

end ChosenContexts

structure Generation where
  directory : String
  contexts : List String
  files : List (String × String)
deriving DecidableEq, Repr

namespace Generation

def contextFiles (directory : String) (plans : List (String × ContextPlan)) :
    List (String × String) :=
  plans.flatMap fun (name, plan) =>
    (Lists.contextFiles plan).map fun (file, text) =>
      (Path.join (Path.join directory name) file, text)

def superFiles (directory : String) (setup : Setup) (solutionRoot : String)
    (project : Lists.SuperProject) : List (String × String) :=
  [(Path.join directory "CMakeLists.txt", Lists.superLists project),
    (Path.join directory "roots.cmake",
      Lists.rootsFile setup.roots.packs setup.roots.compiler solutionRoot)]

def ofPlans (setup : Setup) (verbose : Bool) (chosen : ChosenContexts)
    (plans : List (String × ContextPlan)) : Logged GenerationError Generation :=
  let solution := chosen.solution
  let references := chosen.references
  let (executes, skipped) :=
    Steps.available (references.map (·.name)) solution.index.executes
  let log := skipped ++ Steps.entriesLog references executes
  match Steps.dependencies references executes with
  | .error error => { log, result := .error (.cycle error) }
  | .ok dependencies =>
      let directory := solution.temporaryDirectory
      let project : Lists.SuperProject :=
        { solution := solution.index.solution
          contexts := chosen.contexts.map ChosenContexts.superContext
          executes
          dependencies
          generator := setup.configuration.generatorName
          verbose }
      { log
        result := .ok
          { directory
            contexts := plans.map (·.1)
            files :=
              superFiles directory setup (Path.forwardSlashes solution.root) project ++
                contextFiles directory plans } }

def make (tree : FileTree) (setup : Setup) (verbose : Bool) (chosen : ChosenContexts) :
    Logged GenerationError Generation :=
  (chosen.catalog tree setup).andThen fun catalog =>
    (ChosenContexts.plans catalog chosen.contexts).andThen fun plans =>
      ofPlans setup verbose chosen plans

/-! ## Runs -/

structure Summary where
  directory : String
  contexts : List String
  written : List String
  unchanged : Nat
deriving DecidableEq, Repr

/-- A run leaves files behind, also where it fails. -/
structure Run where
  tree : FileTree
  deeds : List FileTree.Deed := []
  log : Log := []
  result : Except GenerationError Summary

def save (generation : Generation) (tree : FileTree) (indexPath : String) : Run :=
  let progress := tree.updateAll generation.files
  let written := progress.written
  let total := generation.files.length
  match progress.failure with
  | some failure =>
      { tree := progress.tree
        deeds := progress.deeds
        log := progress.log
        result := .error (.files failure) }
  | none =>
      { tree := progress.tree
        deeds := progress.deeds
        log := progress.log ++ written.map (fun path => .debug ("updated " ++ path)) ++
          [.debug (toString (total - written.length) ++ " of " ++ toString total ++
              " files unchanged for " ++ indexPath),
            .info ("CMakeLists were successfully generated in the " ++
              Path.forwardSlashes generation.directory ++ " directory")]
        result := .ok
          { directory := generation.directory
            contexts := generation.contexts
            written
            unchanged := total - written.length } }

def run (tree : FileTree) (setup : Setup) (indexPath : String) (options : GenerationOptions) :
    Run :=
  match ChosenContexts.choose tree indexPath options.patterns with
  | { log, result := .error error } => { tree, log, result := .error error }
  | { log, result := .ok chosen } =>
      let cleaned :=
        if options.clean then tree.clearAll (chosen.solution.cleanTargets chosen.contexts)
        else { tree }
      let log := log ++ (if options.debug then chosen.dump else []) ++ cleaned.log
      match cleaned.failure with
      | some failure =>
          { tree := cleaned.tree, deeds := cleaned.deeds, log, result := .error (.files failure) }
      | none =>
          match make cleaned.tree setup options.verbose chosen with
          | { log := further, result := .error error } =>
              { tree := cleaned.tree
                deeds := cleaned.deeds
                log := log ++ further
                result := .error error }
          | { log := further, result := .ok generation } =>
              let saved := generation.save cleaned.tree indexPath
              { saved with
                deeds := cleaned.deeds ++ saved.deeds
                log := log ++ further ++ saved.log }

end Generation

end SolutionLists
