import SolutionLists.Ordered
import SolutionLists.Steps.Unmet

namespace SolutionLists

/-! Build steps and the steps they wait for, as a directed graph. -/

structure StepGraph where
  /-- Steps in the order in which they are first mentioned. -/
  nodes : List String := []
  /-- Each step with a step it waits for, in the order they were added. -/
  edges : List (String × String) := []
deriving DecidableEq, Repr

namespace StepGraph

def addEdge (graph : StepGraph) (source target : String) : StepGraph where
  nodes := Ordered.append graph.nodes [source, target]
  edges := Ordered.insertLast graph.edges (source, target)

def addEntry (graph : StepGraph) (entry : String × List String) : StepGraph :=
  entry.2.foldl (fun graph dependency => graph.addEdge entry.1 dependency)
    { graph with nodes := Ordered.insertLast graph.nodes entry.1 }

def successors (graph : StepGraph) (step : String) : List String :=
  ((graph.edges.filter (·.1 = step)).map (·.2)).reverse

def Waits (graph : StepGraph) (step dependency : String) : Prop :=
  (step, dependency) ∈ graph.edges

def reach (graph : StepGraph) (met : List String) : (stack : List String) → List String
  | [] => met
  | step :: rest =>
      if step ∈ met ∨ step ∉ graph.nodes then graph.reach met rest
      else graph.reach (step :: met) (graph.successors step ++ rest)
termination_by stack => (Steps.unmet id graph.nodes met, stack.length)
decreasing_by
  · exact Prod.Lex.right _ (by simp)
  · rename_i fresh
    simp only [not_or, Decidable.not_not] at fresh
    exact Prod.Lex.left _ _ (Steps.unmet_cons_lt id fresh.2 fresh.1)

def leads (graph : StepGraph) (first last : String) : Bool :=
  last ∈ graph.reach [] [first]

def isOnCycle (graph : StepGraph) (step : String) : Bool :=
  (graph.successors step).any fun next => graph.leads next step

def component (graph : StepGraph) (step : String) : List String :=
  graph.nodes.filter fun other => graph.leads step other && graph.leads other step

/-! ## The cycle that is reported -/

/-- Steps in the order in which a walk meets them and finishes with them, the latest
in front. -/
structure Walk where
  met : List String := []
  finished : List String := []
deriving DecidableEq, Repr

/-- Go on with a walk. A step stays on the stack while the steps it waits for, the
oldest of them first, are walked; it is finished when it comes up again. -/
def walkOn (graph : StepGraph) (walk : Walk) : (stack : List String) → Walk
  | [] => walk
  | step :: rest =>
      if step ∈ walk.met ∨ step ∉ graph.nodes then
        graph.walkOn
          { walk with
            finished :=
              if step ∈ walk.finished then walk.finished else step :: walk.finished } rest
      else
        let met := step :: walk.met
        graph.walkOn { walk with met }
          (((graph.successors step).filter (· ∉ met)).reverse ++ step :: rest)
termination_by stack => (Steps.unmet id graph.nodes walk.met, stack.length)
decreasing_by
  · exact Prod.Lex.right _ (by simp)
  · rename_i fresh
    simp only [not_or, Decidable.not_not] at fresh
    exact Prod.Lex.left _ _ (Steps.unmet_cons_lt id fresh.2 fresh.1)

def walk (graph : StepGraph) : Walk :=
  graph.nodes.foldl (fun walk step =>
    if step ∈ walk.met then walk else graph.walkOn walk [step]) {}

/-- The step whose cycle is reported: the first met that waits for itself directly,
else the last finished that is on a cycle. -/
def cycleStart? (graph : StepGraph) : Option String :=
  let walk := graph.walk
  (walk.met.reverse.find? fun step => graph.successors step |>.contains step).or
    ((walk.finished.find? graph.isOnCycle).or (graph.nodes.find? graph.isOnCycle))

end StepGraph

end SolutionLists
