import Mathlib.Data.Finset.Sort
import Mathlib.Data.String.Basic
import Mathlib.Order.Extension.Linear
import SolutionLists.Proofs.Steps.Reach
import SolutionLists.Steps.Dependencies

namespace SolutionLists.Steps

/-! Which steps are refused: those that wait for each other in a circle. All others can
be put in an order. -/

open Relation (ReflTransGen TransGen)

/-- The steps of a solution: the build of each context, the commands, and what gathers the
commands behind a context. -/
def all (contexts : List ContextReference) (executes : List Execute) : List String :=
  contexts.map (buildStep ·.name) ++ executes.map (·.name) ++ contexts.map (executesStep ·.name)

/-- Whether a step is said to wait for another one, or stands behind a context for its
build. -/
def Waits (contexts : List ContextReference) (executes : List Execute)
    (step dependency : String) : Prop :=
  (∃ entry ∈ entries contexts executes, entry.1 = step ∧ dependency ∈ entry.2) ∨
    ∃ context ∈ contexts, step = executesStep context.name ∧
      dependency = buildStep context.name

/-! ## The graph of the entries -/

section Graph

variable (contexts : List String) (entries : List (String × List String))

theorem waits_foldl_addEntry (graph : StepGraph) {step dependency : String} :
    (entries.foldl StepGraph.addEntry graph).Waits step dependency ↔
      graph.Waits step dependency ∨
        ∃ entry ∈ entries, entry.1 = step ∧ dependency ∈ entry.2 := by
  induction entries generalizing graph with
  | nil => simp
  | cons head tail induction =>
      rw [List.foldl_cons, induction, StepGraph.waits_addEntry, or_assoc]
      simp [eq_comm]

theorem wellFormed_foldl_addEntry {graph : StepGraph} (formed : graph.WellFormed) :
    (entries.foldl StepGraph.addEntry graph).WellFormed := by
  induction entries generalizing graph with
  | nil => exact formed
  | cons head tail induction => exact induction (formed.addEntry head)

theorem wellFormed_graph : (graph contexts entries).WellFormed :=
  (wellFormed_foldl_addEntry entries StepGraph.wellFormed_empty).foldl_addEdge
    executesStep buildStep contexts

theorem waits_graph {step dependency : String} :
    (graph contexts entries).Waits step dependency ↔
      (∃ entry ∈ entries, entry.1 = step ∧ dependency ∈ entry.2) ∨
        ∃ context ∈ contexts, step = executesStep context ∧ dependency = buildStep context := by
  unfold graph
  rw [StepGraph.waits_foldl_addEdge executesStep buildStep, waits_foldl_addEntry]
  have nothing : ¬ StepGraph.Waits {} step dependency := fun edge => nomatch edge
  rw [or_iff_right nothing]

end Graph

/-! ## An order of all steps -/

theorem pair_sublist_of_pairwise {α : Type} {order : α → α → Prop} [Std.Antisymm order]
    {list : List α} (sorted : list.Pairwise order) {first second : α} (inFirst : first ∈ list)
    (inSecond : second ∈ list) (smaller : order first second) (different : first ≠ second) :
    [first, second].Sublist list := by
  rcases List.append_of_mem inFirst with ⟨before, after, rfl⟩
  rcases List.mem_append.mp inSecond with earlier | here
  · have larger := (List.pairwise_append.mp sorted).2.2 second earlier first List.mem_cons_self
    exact absurd (antisymm smaller larger) different
  · rcases List.mem_cons.mp here with same | later
    · exact absurd same.symm different
    · exact ((List.singleton_sublist.mpr later).cons_cons first).trans
        (List.sublist_append_right before _)

/-- Where no step waits for itself, directly or through others, the steps can be put in an
order. -/
theorem exists_order {waits : String → String → Prop}
    (acyclic : ∀ step, ¬ TransGen waits step step) {steps : List String}
    (inside : ∀ step dependency, waits step dependency → step ∈ steps ∧ dependency ∈ steps) :
    ∃ order : List String, order.Nodup ∧ (∀ step, step ∈ order ↔ step ∈ steps) ∧
      ∀ step dependency, waits step dependency → [dependency, step].Sublist order := by
  classical
  -- Without circles the chains of waiting steps are a partial order, and any linear order
  -- that contains it will do.
  let needed : String → String → Prop := fun dependency step => ReflTransGen waits step dependency
  have partialOrder : IsPartialOrder String needed := by
    refine { refl := fun _ => .refl, trans := fun _ _ _ first second => second.trans first,
             antisymm := fun first second there back => ?_ }
    rcases Relation.reflTransGen_iff_eq_or_transGen.mp there with same | chain
    · exact same
    · exact absurd (chain.trans_left back) (acyclic second)
  rcases extend_partialOrder needed with ⟨linear, isLinear, contains⟩
  let order := steps.toFinset.sort linear
  have mem_order : ∀ step, step ∈ order ↔ step ∈ steps := fun step => by simp [order]
  refine ⟨order, Finset.sort_nodup _ _, mem_order, fun step dependency edge => ?_⟩
  have known := inside step dependency edge
  have different : dependency ≠ step := fun same => acyclic step (.single (same ▸ edge))
  exact pair_sublist_of_pairwise (Finset.pairwise_sort _ _) ((mem_order _).mpr known.2)
    ((mem_order _).mpr known.1) (contains _ _ (.single edge)) different

/-! ## What steps wait for -/

variable {contexts : List ContextReference} {executes : List Execute}

def stepOf? (contexts : List ContextReference) (executes : List Execute) (name : String) :
    Option String :=
  step? (contexts.map (·.name)) executes name

/-- Whether a declared name stands for a step: that of a context for its build, that of another
command for the command itself. -/
def StandsFor (contexts : List ContextReference) (executes : List Execute)
    (name step : String) : Prop :=
  (name ∈ contexts.map (·.name) ∧ step = buildStep name) ∨
    (name ∉ contexts.map (·.name) ∧ name ∈ executes.map (·.name) ∧ step = name)

theorem stepOf_eq_some {name step : String} :
    stepOf? contexts executes name = some step ↔ StandsFor contexts executes name step := by
  have command : (executes.any fun other => other.name = name) = true ↔
      name ∈ executes.map (·.name) := by
    simp
  unfold stepOf? step? StandsFor
  split
  case isTrue context =>
    simp only [context, true_and, not_true_eq_false, false_and, or_false, Option.some.injEq]
    exact eq_comm
  case isFalse absent =>
    simp only [absent, false_and, not_false_eq_true, true_and, false_or]
    split
    case isTrue known =>
      rw [and_iff_right (command.mp known), Option.some.injEq]
      exact eq_comm
    case isFalse unknown =>
      simp only [mt command.mpr unknown, false_and, reduceCtorEq]

theorem mem_resolve {names : List String} {step : String} :
    step ∈ resolve (contexts.map (·.name)) executes names ↔
      ∃ name ∈ names, stepOf? contexts executes name = some step :=
  List.mem_filterMap

theorem stepOf_cases {name step : String} (found : stepOf? contexts executes name = some step) :
    (∃ context ∈ contexts, context.name = name ∧ step = buildStep context.name) ∨
      ∃ execute ∈ executes, execute.name = name ∧ step = execute.name := by
  rcases stepOf_eq_some.mp found with ⟨listed, same⟩ | ⟨_, listed, same⟩
  · rcases List.mem_map.mp listed with ⟨context, member, rfl⟩
    exact .inl ⟨context, member, rfl, same⟩
  · rcases List.mem_map.mp listed with ⟨execute, member, rfl⟩
    exact .inr ⟨execute, member, rfl, same⟩

theorem mem_independent {step : String} :
    step ∈ independent executes ↔
      ∃ execute ∈ executes, execute.isIndependent = true ∧ execute.name = step := by
  simp [independent, and_assoc]

def BuildWaits (contexts : List ContextReference) (executes : List Execute)
    (context : ContextReference) (dependency : String) : Prop :=
  dependency ∈ resolve (contexts.map (·.name)) executes context.dependsOn ∨
    dependency ∈ independent executes

def CommandWaits (contexts : List ContextReference) (executes : List Execute)
    (execute : Execute) (dependency : String) : Prop :=
  dependency ∈ resolve (contexts.map (·.name)) executes execute.dependsOn ∨
    (execute.always = false ∧ dependency ∈ independent executes)

/-- What is waited for behind a context: its build, and the commands gathered there. -/
def GatheringWaits (executes : List Execute) (context : ContextReference)
    (dependency : String) : Prop :=
  (∃ execute ∈ executes, execute.name = dependency) ∨ dependency = buildStep context.name

theorem mem_buildEntry {context : ContextReference} {dependency : String} :
    dependency ∈ (buildEntry (contexts.map (·.name)) executes context).2 ↔
      BuildWaits contexts executes context dependency :=
  Ordered.mem_append

theorem mem_executeEntry {execute : Execute} {dependency : String} :
    dependency ∈ (executeEntry (contexts.map (·.name)) executes execute).2 ↔
      CommandWaits contexts executes execute dependency := by
  unfold executeEntry CommandWaits
  cases execute.always <;> simp

theorem mem_executesEntry {context dependency : String}
    (member : dependency ∈ (executesEntry executes context).2) :
    ∃ execute ∈ executes, execute.name = dependency := by
  rcases Ordered.mem_append.mp member with following | first
  · rcases List.mem_map.mp following with ⟨execute, kept, same⟩
    exact ⟨execute, (List.mem_filter.mp kept).1, same⟩
  · rcases mem_independent.mp first with ⟨execute, known, _, same⟩
    exact ⟨execute, known, same⟩

theorem waits_cases {step dependency : String} (edge : Waits contexts executes step dependency) :
    (∃ context ∈ contexts, step = buildStep context.name ∧
      BuildWaits contexts executes context dependency) ∨
    (∃ execute ∈ executes, step = execute.name ∧
      CommandWaits contexts executes execute dependency) ∨
    ∃ context ∈ contexts, step = executesStep context.name ∧
      GatheringWaits executes context dependency := by
  rcases edge with ⟨entry, member, rfl, waited⟩ | ⟨context, member, rfl, rfl⟩
  · have kinds := (List.mem_filter.mp member).1
    simp only [List.mem_append, List.mem_map] at kinds
    rcases kinds with (⟨context, known, rfl⟩ | ⟨execute, known, rfl⟩) |
      ⟨_, ⟨context, known, rfl⟩, rfl⟩
    · exact .inl ⟨context, known, rfl, mem_buildEntry.mp waited⟩
    · exact .inr (.inl ⟨execute, known, rfl, mem_executeEntry.mp waited⟩)
    · exact .inr (.inr ⟨context, known, rfl, .inl (mem_executesEntry waited)⟩)
  · exact .inr (.inr ⟨context, member, rfl, .inr rfl⟩)

theorem waits_build {context : ContextReference} (member : context ∈ contexts)
    {dependency : String} (waited : BuildWaits contexts executes context dependency) :
    Waits contexts executes (buildStep context.name) dependency := by
  have inEntry := mem_buildEntry.mpr waited
  refine .inl ⟨_, List.mem_filter.mpr ⟨?_, ?_⟩, rfl, inEntry⟩
  · exact List.mem_append_left _ (List.mem_append_left _ (List.mem_map_of_mem member))
  · exact decide_eq_true (List.ne_nil_of_mem inEntry)

theorem waits_command {execute : Execute} (member : execute ∈ executes) {dependency : String}
    (waited : CommandWaits contexts executes execute dependency) :
    Waits contexts executes execute.name dependency := by
  have inEntry := mem_executeEntry.mpr waited
  refine .inl ⟨_, List.mem_filter.mpr ⟨?_, ?_⟩, rfl, inEntry⟩
  · exact List.mem_append_left _ (List.mem_append_right _ (List.mem_map_of_mem member))
  · exact decide_eq_true (List.ne_nil_of_mem inEntry)

theorem waited_for {step dependency : String} (edge : Waits contexts executes step dependency) :
    (∃ context ∈ contexts, dependency = buildStep context.name) ∨
      ∃ execute ∈ executes, dependency = execute.name := by
  have ofName : ∀ {names : List String},
      dependency ∈ resolve (contexts.map (·.name)) executes names →
      (∃ context ∈ contexts, dependency = buildStep context.name) ∨
        ∃ execute ∈ executes, dependency = execute.name := by
    intro names member
    rcases mem_resolve.mp member with ⟨name, _, found⟩
    rcases stepOf_cases found with ⟨context, known, _, same⟩ | ⟨execute, known, _, same⟩
    · exact .inl ⟨context, known, same⟩
    · exact .inr ⟨execute, known, same⟩
  have ofIndependent : dependency ∈ independent executes →
      ∃ execute ∈ executes, dependency = execute.name := by
    intro member
    rcases mem_independent.mp member with ⟨execute, known, _, same⟩
    exact ⟨execute, known, same.symm⟩
  rcases waits_cases edge with ⟨_, _, _, named | first⟩ | ⟨_, _, _, named | ⟨_, first⟩⟩ |
    ⟨context, known, _, ⟨execute, listed, same⟩ | same⟩
  · exact ofName named
  · exact .inr (ofIndependent first)
  · exact ofName named
  · exact .inr (ofIndependent first)
  · exact .inr ⟨execute, listed, same.symm⟩
  · exact .inl ⟨context, known, same⟩

theorem mem_all {step : String} :
    step ∈ all contexts executes ↔
      (∃ context ∈ contexts, step = buildStep context.name) ∨
        (∃ execute ∈ executes, step = execute.name) ∨
          ∃ context ∈ contexts, step = executesStep context.name := by
  simp [all, eq_comm]

theorem mem_all_of_waits {step dependency : String}
    (edge : Waits contexts executes step dependency) :
    step ∈ all contexts executes ∧ dependency ∈ all contexts executes := by
  rw [mem_all, mem_all]
  constructor
  · rcases waits_cases edge with ⟨context, known, same, _⟩ | ⟨execute, known, same, _⟩ |
      ⟨context, known, same, _⟩
    · exact .inl ⟨context, known, same⟩
    · exact .inr (.inl ⟨execute, known, same⟩)
    · exact .inr (.inr ⟨context, known, same⟩)
  · rcases waited_for edge with build | command
    · exact .inl build
    · exact .inr (.inl command)

/-! ## The steps that are refused -/

theorem waits_graph_iff {step dependency : String} :
    (graph (contexts.map (·.name)) (entries contexts executes)).Waits step dependency ↔
      Waits contexts executes step dependency := by
  rw [waits_graph, Waits]
  simp

theorem waits_graph_eq :
    (graph (contexts.map (·.name)) (entries contexts executes)).Waits =
      Waits contexts executes := by
  funext step dependency
  exact propext waits_graph_iff

theorem dependencies_eq_ok {list : List (String × List String)}
    (passed : dependencies contexts executes = .ok list) :
    list = entries contexts executes ∧
      ∀ step, ¬ TransGen (Waits contexts executes) step step := by
  unfold dependencies cycle? at passed
  dsimp only at passed
  cases start : (graph (contexts.map (·.name)) (entries contexts executes)).cycleStart? with
  | none =>
      rw [start] at passed
      cases passed
      have acyclic := StepGraph.cycleStart_none (wellFormed_graph _ _) start
      rw [waits_graph_eq] at acyclic
      exact ⟨rfl, acyclic⟩
  | some step =>
      rw [start] at passed
      cases passed

theorem ascending_mergeSort {list : List String} (once : list.Nodup) :
    (list.mergeSort fun first second => decide (first ≤ second)).Pairwise (· < ·) := by
  have sorted : (list.mergeSort fun first second => decide (first ≤ second)).SortedLE :=
    List.sortedLE_mergeSort
  exact (sorted.sortedLT_of_nodup ((List.mergeSort_perm _ _).nodup_iff.mpr once)).pairwise

theorem dependencies_eq_error {error : CycleError}
    (refused : dependencies contexts executes = .error error) :
    error.steps.Pairwise (· < ·) ∧
      ∃ start, TransGen (Waits contexts executes) start start ∧
        ∀ step, step ∈ error.steps ↔
          ReflTransGen (Waits contexts executes) start step ∧
            ReflTransGen (Waits contexts executes) step start := by
  have formed := wellFormed_graph (contexts.map (·.name)) (entries contexts executes)
  unfold dependencies cycle? at refused
  dsimp only at refused
  cases start : (graph (contexts.map (·.name)) (entries contexts executes)).cycleStart? with
  | none =>
      rw [start] at refused
      cases refused
  | some first =>
      rw [start] at refused
      cases refused
      have cycle := StepGraph.cycleStart_some formed start
      rcases Relation.TransGen.head'_iff.mp cycle with ⟨next, edge, _⟩
      have members : ∀ step, step ∈ StepGraph.component _ first ↔ _ := fun _ =>
        StepGraph.mem_component formed (formed.mem_of_waits edge).1
      rw [waits_graph_eq] at cycle members
      refine ⟨?_, first, cycle, fun step => List.mem_mergeSort.trans (members step)⟩
      exact ascending_mergeSort (formed.nodup.filter _)

theorem dependencies_ok_iff :
    (∃ list, dependencies contexts executes = .ok list) ↔
      ¬ ∃ step, TransGen (Waits contexts executes) step step := by
  constructor
  · rintro ⟨list, passed⟩ ⟨step, circle⟩
    exact (dependencies_eq_ok passed).2 step circle
  · intro acyclic
    cases result : dependencies contexts executes with
    | ok list => exact ⟨list, rfl⟩
    | error error =>
        rcases dependencies_eq_error result with ⟨_, start, circle, _⟩
        exact absurd ⟨start, circle⟩ acyclic

theorem dependencies_ok_of_shrinking (size : String → Nat)
    (inEntries : ∀ entry ∈ entries contexts executes, ∀ dependency ∈ entry.2,
      size dependency < size entry.1)
    (behind : ∀ context ∈ contexts,
      size (buildStep context.name) < size (executesStep context.name)) :
    dependencies contexts executes = .ok (entries contexts executes) := by
  have edge : ∀ step dependency, Waits contexts executes step dependency →
      size dependency < size step := by
    rintro _ dependency (⟨entry, member, rfl, inside⟩ | ⟨context, member, rfl, rfl⟩)
    · exact inEntries entry member dependency inside
    · exact behind context member
  have chain : ∀ step last, TransGen (Waits contexts executes) step last →
      size last < size step := by
    intro step last chain
    induction chain with
    | single waited => exact edge _ _ waited
    | tail _ waited induction => exact (edge _ _ waited).trans induction
  have acyclic : ¬ ∃ step, TransGen (Waits contexts executes) step step :=
    fun ⟨step, circle⟩ => Nat.lt_irrefl _ (chain step step circle)
  rcases dependencies_ok_iff.mpr acyclic with ⟨list, accepted⟩
  rw [accepted, (dependencies_eq_ok accepted).1]

/-- Steps are refused exactly where some of them wait for each other in a circle. What is
reported then are the steps of one circle with all that wait for them and that they wait
for; what is not refused can be put in an order. -/
theorem dependencies_refuse_circles (contexts : List ContextReference)
    (executes : List Execute) :
    ((∃ list, dependencies contexts executes = .ok list) ↔
      ¬ ∃ step, TransGen (Waits contexts executes) step step) ∧
    (∀ list, dependencies contexts executes = .ok list →
      list = entries contexts executes ∧
      ∃ order : List String, order.Nodup ∧
        (∀ step, step ∈ order ↔ step ∈ all contexts executes) ∧
        ∀ step dependency, Waits contexts executes step dependency →
          [dependency, step].Sublist order) ∧
    ∀ error, dependencies contexts executes = .error error →
      error.steps.Pairwise (· < ·) ∧
      ∃ start, TransGen (Waits contexts executes) start start ∧
        ∀ step, step ∈ error.steps ↔
          ReflTransGen (Waits contexts executes) start step ∧
            ReflTransGen (Waits contexts executes) step start := by
  refine ⟨dependencies_ok_iff, ?_, fun error refused => dependencies_eq_error refused⟩
  intro list passed
  rcases dependencies_eq_ok passed with ⟨same, acyclic⟩
  exact ⟨same, exists_order acyclic fun _ _ edge => mem_all_of_waits edge⟩

end SolutionLists.Steps
