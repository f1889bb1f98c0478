import SolutionLists.Description.Index
import SolutionLists.Diagnostic
import SolutionLists.Log
import SolutionLists.Steps.Graph

namespace SolutionLists

/-! Which steps wait for which. A context is built by one step and followed by
another one that gathers its commands; every command of the solution is a step of its
own. Commands that always run and wait for nothing come before everything else. -/

namespace Steps

def buildStep (context : String) : String :=
  context ++ "-build"

/-- The step behind a context that gathers the commands which follow it. -/
def executesStep (context : String) : String :=
  context ++ "-executes"

/-! ## Commands that can run -/

def isAvailable (contexts : List String) (executes : List Execute) (execute : Execute) : Bool :=
  execute.dependsOn.all fun name =>
    decide (name ∈ contexts) || executes.any fun other => other.name = name

/-- The commands that are left when those that wait for a missing step are dropped once. -/
def availableNow (contexts : List String) (executes : List Execute) : List Execute :=
  executes.filter (isAvailable contexts executes)

def skippedLog (contexts : List String) (executes : List Execute) : Log :=
  (executes.filter fun execute => !isAvailable contexts executes execute).map fun execute =>
    .warning ("skipping execute " ++ execute.name ++ ": its dependencies are not generated")

def available (contexts : List String) (executes : List Execute) : List Execute × Log :=
  if _shorter : (availableNow contexts executes).length < executes.length then
    let (left, log) := available contexts (availableNow contexts executes)
    (left, skippedLog contexts executes ++ log)
  else (executes, [])
termination_by executes.length

/-! ## Commands that follow a context -/

/-- The commands, other than those that always run, that a command waits for. -/
def followed (executes : List Execute) (execute : Execute) : List Execute :=
  execute.dependsOn.flatMap fun name =>
    executes.filter fun other => !other.always && other.name = name

def leadsTo (executes : List Execute) (context : String) (met : List String) :
    (stack : List Execute) → Bool
  | [] => false
  | execute :: rest =>
      if execute.name ∈ met ∨ execute ∉ executes then leadsTo executes context met rest
      else if context ∈ execute.dependsOn then true
      else
        leadsTo executes context (execute.name :: met) (followed executes execute ++ rest)
termination_by stack => (unmet Execute.name executes met, stack.length)
decreasing_by
  · exact Prod.Lex.right _ (by simp)
  · rename_i fresh _
    simp only [not_or, Decidable.not_not] at fresh
    exact Prod.Lex.left _ _ (unmet_cons_lt Execute.name fresh.2 fresh.1)

def follows (executes : List Execute) (context : String) (execute : Execute) : Bool :=
  leadsTo executes context [] [execute]

/-! ## All dependencies -/

def step? (contexts : List String) (executes : List Execute) (name : String) : Option String :=
  if name ∈ contexts then some (buildStep name)
  else if executes.any (·.name = name) then some name
  else none

def resolve (contexts : List String) (executes : List Execute) (names : List String) :
    List String :=
  names.filterMap (step? contexts executes)

def unresolvedLog (contexts : List String) (executes : List Execute) (step : String)
    (names : List String) : Log :=
  (names.filter fun name => (step? contexts executes name).isNone).map fun name =>
    .warning (step ++ " depends on " ++ name ++ ", which is not generated")

def independent (executes : List Execute) : List String :=
  (executes.filter (·.isIndependent)).map (·.name)

def buildEntry (contexts : List String) (executes : List Execute) (context : ContextReference) :
    String × List String :=
  (buildStep context.name,
    Ordered.append (resolve contexts executes context.dependsOn) (independent executes))

def executeEntry (contexts : List String) (executes : List Execute) (execute : Execute) :
    String × List String :=
  let declared := Ordered.append [] (resolve contexts executes execute.dependsOn)
  (execute.name,
    if execute.always then declared else Ordered.append declared (independent executes))

def executesEntry (executes : List Execute) (context : String) : String × List String :=
  let following := executes.filter fun execute =>
    !execute.always && follows executes context execute
  (executesStep context, Ordered.append (following.map (·.name)) (independent executes))

def entries (contexts : List ContextReference) (executes : List Execute) :
    List (String × List String) :=
  let names := contexts.map (·.name)
  let all := contexts.map (buildEntry names executes) ++
    executes.map (executeEntry names executes) ++ names.map (executesEntry executes)
  all.filter (·.2 ≠ [])

def entriesLog (contexts : List ContextReference) (executes : List Execute) : Log :=
  let names := contexts.map (·.name)
  contexts.flatMap (fun context => unresolvedLog names executes context.name context.dependsOn) ++
    executes.flatMap fun execute => unresolvedLog names executes execute.name execute.dependsOn

/-- The graph of the entries, in which the commands behind a context wait for its
build. -/
def graph (contexts : List String) (entries : List (String × List String)) : StepGraph :=
  contexts.foldl (fun graph context => graph.addEdge (executesStep context) (buildStep context))
    (entries.foldl StepGraph.addEntry {})

structure CycleError where
  steps : List String
deriving DecidableEq, Repr

namespace CycleError

def message (error : CycleError) : String :=
  "dependency cycle between build steps: " ++ " -> ".intercalate error.steps

def report (error : CycleError) : ErrorReport where
  message := error.message
  code := "cbuild2cmake::graph::cycle"
  hint := some Suggestion.breakCycle
  diagnostic :=
    { message := "dependency cycle between build steps"
      context := ["cycle: " ++ " -> ".intercalate error.steps]
      suggestions := [Suggestion.breakCycle] }

end CycleError

def cycle? (graph : StepGraph) : Option CycleError :=
  graph.cycleStart?.map fun start =>
    ⟨(graph.component start).mergeSort fun first second => decide (first ≤ second)⟩

def dependencies (contexts : List ContextReference) (executes : List Execute) :
    Except CycleError (List (String × List String)) :=
  let entries := entries contexts executes
  match cycle? (graph (contexts.map (·.name)) entries) with
  | some error => .error error
  | none => .ok entries

end Steps

end SolutionLists
