import Mathlib.Logic.Relation
import SolutionLists.Steps.Graph

namespace SolutionLists.StepGraph

/-! What the searches in a graph find: the steps to which a chain of waiting steps leads,
the steps that wait for themselves, and the steps that wait for each other. -/

open Relation (ReflTransGen TransGen)

variable {graph : StepGraph}

/-- Whether all steps of the edges are steps of the graph, none of them listed twice. -/
structure WellFormed (graph : StepGraph) : Prop where
  nodup : graph.nodes.Nodup
  mem_of_waits : ∀ {step dependency : String}, graph.Waits step dependency →
    step ∈ graph.nodes ∧ dependency ∈ graph.nodes

theorem mem_successors {step dependency : String} :
    dependency ∈ graph.successors step ↔ graph.Waits step dependency := by
  unfold successors Waits
  simp only [List.mem_reverse, List.mem_map, List.mem_filter, decide_eq_true_eq]
  constructor
  · rintro ⟨⟨source, target⟩, ⟨edge, rfl⟩, rfl⟩
    exact edge
  · intro edge
    exact ⟨(step, dependency), ⟨edge, rfl⟩, rfl⟩

/-! ## Making a graph -/

theorem waits_addEdge {source target step dependency : String} :
    (graph.addEdge source target).Waits step dependency ↔
      graph.Waits step dependency ∨ (step = source ∧ dependency = target) := by
  unfold Waits addEdge
  rw [Ordered.mem_insertLast, Prod.mk.injEq]

theorem wellFormed_empty : WellFormed {} where
  nodup := List.nodup_nil
  mem_of_waits edge := by cases edge

theorem WellFormed.addEdge (formed : graph.WellFormed) (source target : String) :
    (graph.addEdge source target).WellFormed where
  nodup := Ordered.nodup_append formed.nodup [source, target]
  mem_of_waits := by
    intro step dependency edge
    unfold StepGraph.addEdge
    rw [Ordered.mem_append, Ordered.mem_append]
    rcases waits_addEdge.mp edge with old | ⟨rfl, rfl⟩
    · have known := formed.mem_of_waits old
      exact ⟨.inl known.1, .inl known.2⟩
    · exact ⟨.inr List.mem_cons_self, .inr (List.mem_cons_of_mem _ List.mem_cons_self)⟩

theorem waits_foldl_addEdge {α : Type} (source target : α → String) (values : List α)
    {step dependency : String} (graph : StepGraph) :
    (values.foldl (fun graph value => graph.addEdge (source value) (target value)) graph).Waits
        step dependency ↔
      graph.Waits step dependency ∨
        ∃ value ∈ values, step = source value ∧ dependency = target value := by
  induction values generalizing graph with
  | nil => simp
  | cons head tail induction =>
      rw [List.foldl_cons, induction, waits_addEdge, or_assoc]
      simp

theorem WellFormed.foldl_addEdge {α : Type} (source target : α → String) (values : List α)
    {graph : StepGraph} (formed : graph.WellFormed) :
    (values.foldl (fun graph value =>
      graph.addEdge (source value) (target value)) graph).WellFormed := by
  induction values generalizing graph with
  | nil => exact formed
  | cons head tail induction => exact induction (formed.addEdge (source head) (target head))

theorem waits_addEntry {entry : String × List String} {step dependency : String} :
    (graph.addEntry entry).Waits step dependency ↔
      graph.Waits step dependency ∨ (step = entry.1 ∧ dependency ∈ entry.2) := by
  refine (waits_foldl_addEdge (fun _ => entry.1) id entry.2 _).trans (or_congr Iff.rfl ?_)
  constructor
  · rintro ⟨_, member, same, rfl⟩
    exact ⟨same, member⟩
  · rintro ⟨same, member⟩
    exact ⟨dependency, member, same, rfl⟩

theorem WellFormed.addEntry (formed : graph.WellFormed) (entry : String × List String) :
    (graph.addEntry entry).WellFormed := by
  refine WellFormed.foldl_addEdge (fun _ => entry.1) id entry.2 ?_
  constructor
  · exact Ordered.nodup_insertLast formed.nodup entry.1
  · intro step dependency edge
    have known := formed.mem_of_waits edge
    exact ⟨Ordered.mem_insertLast.mpr (.inl known.1), Ordered.mem_insertLast.mpr (.inl known.2)⟩

/-! ## Reaching -/

theorem reach_sound (met stack : List String) {last : String}
    (found : last ∈ graph.reach met stack) :
    last ∈ met ∨ ∃ first ∈ stack, ReflTransGen graph.Waits first last := by
  fun_induction graph.reach met stack with
  | case1 met => exact .inl found
  | case2 met step rest passed induction =>
      rcases induction found with known | ⟨first, later, chain⟩
      · exact .inl known
      · exact .inr ⟨first, List.mem_cons_of_mem _ later, chain⟩
  | case3 met step rest fresh induction =>
      rcases induction found with known | ⟨first, member, chain⟩
      · rcases List.mem_cons.mp known with rfl | known
        · exact .inr ⟨last, List.mem_cons_self, .refl⟩
        · exact .inl known
      · rcases List.mem_append.mp member with next | later
        · exact .inr ⟨step, List.mem_cons_self, .head (mem_successors.mp next) chain⟩
        · exact .inr ⟨first, List.mem_cons_of_mem _ later, chain⟩

/-- Where all that the met steps wait for is met or still to come, the search ends with steps
that wait for no others. -/
theorem reach_closed (formed : graph.WellFormed) (met stack : List String)
    (pending : ∀ step ∈ met, ∀ dependency, graph.Waits step dependency →
      dependency ∈ met ∨ dependency ∈ stack) :
    (∀ step ∈ met, step ∈ graph.reach met stack) ∧
      (∀ step ∈ stack, step ∈ graph.nodes → step ∈ graph.reach met stack) ∧
      ∀ step ∈ graph.reach met stack, ∀ dependency, graph.Waits step dependency →
        dependency ∈ graph.reach met stack := by
  -- `pending` holds on the whole search: a step is met only when all that it waits for
  -- goes on the stack.
  fun_induction graph.reach met stack with
  | case1 met =>
      refine ⟨fun step known => known, fun step absent => absurd absent List.not_mem_nil, ?_⟩
      intro step known dependency edge
      exact (pending step known dependency edge).resolve_right List.not_mem_nil
  | case2 met first rest passed induction =>
      have known : first ∈ graph.nodes → first ∈ met := fun inside =>
        passed.resolve_right (not_not_intro inside)
      obtain ⟨metFound, restFound, closed⟩ := induction fun step member dependency edge => by
        rcases pending step member dependency edge with inMet | onStack
        · exact .inl inMet
        · rcases List.mem_cons.mp onStack with rfl | later
          · exact .inl (known (formed.mem_of_waits edge).2)
          · exact .inr later
      refine ⟨metFound, ?_, closed⟩
      intro step member inside
      rcases List.mem_cons.mp member with rfl | later
      · exact metFound _ (known inside)
      · exact restFound step later inside
  | case3 met first rest fresh induction =>
      obtain ⟨metFound, stackFound, closed⟩ := induction fun step member dependency edge => by
        rcases List.mem_cons.mp member with rfl | older
        · exact .inr (List.mem_append_left _ (mem_successors.mpr edge))
        · rcases pending step older dependency edge with inMet | onStack
          · exact .inl (List.mem_cons_of_mem _ inMet)
          · rcases List.mem_cons.mp onStack with rfl | later
            · exact .inl List.mem_cons_self
            · exact .inr (List.mem_append_right _ later)
      refine ⟨fun step known => metFound step (List.mem_cons_of_mem _ known), ?_, closed⟩
      intro step member inside
      rcases List.mem_cons.mp member with rfl | later
      · exact metFound _ List.mem_cons_self
      · exact stackFound step (List.mem_append_right _ later) inside

theorem leads_iff (formed : graph.WellFormed) {first last : String}
    (known : first ∈ graph.nodes) :
    graph.leads first last = true ↔ ReflTransGen graph.Waits first last := by
  unfold leads
  rw [decide_eq_true_iff]
  constructor
  · intro found
    rcases reach_sound [] [first] found with absent | ⟨step, only, chain⟩
    · exact absurd absent List.not_mem_nil
    · exact List.mem_singleton.mp only ▸ chain
  · intro chain
    obtain ⟨_, start, closed⟩ := reach_closed formed [] [first] fun step absent =>
      absurd absent List.not_mem_nil
    induction chain with
    | refl => exact start first List.mem_cons_self known
    | tail _ edge induction => exact closed _ induction _ edge

theorem isOnCycle_iff (formed : graph.WellFormed) {step : String} :
    graph.isOnCycle step = true ↔ TransGen graph.Waits step step := by
  unfold isOnCycle
  rw [List.any_eq_true, Relation.TransGen.head'_iff]
  constructor
  · rintro ⟨next, member, found⟩
    have edge := mem_successors.mp member
    exact ⟨next, edge, (leads_iff formed (formed.mem_of_waits edge).2).mp found⟩
  · rintro ⟨next, edge, chain⟩
    exact ⟨next, mem_successors.mpr edge,
      (leads_iff formed (formed.mem_of_waits edge).2).mpr chain⟩

theorem mem_component (formed : graph.WellFormed) {start step : String}
    (known : start ∈ graph.nodes) :
    step ∈ graph.component start ↔
      ReflTransGen graph.Waits start step ∧ ReflTransGen graph.Waits step start := by
  unfold component
  rw [List.mem_filter, Bool.and_eq_true, leads_iff formed known]
  constructor
  · rintro ⟨inside, there, back⟩
    exact ⟨there, (leads_iff formed inside).mp back⟩
  · rintro ⟨there, back⟩
    have inside : step ∈ graph.nodes := by
      cases there with
      | refl => exact known
      | tail _ edge => exact (formed.mem_of_waits edge).2
    exact ⟨inside, there, (leads_iff formed inside).mpr back⟩

/-! ## The cycle that is reported -/

theorem cycleStart_some (formed : graph.WellFormed) {start : String}
    (found : graph.cycleStart? = some start) : TransGen graph.Waits start start := by
  unfold cycleStart? at found
  rcases Option.or_eq_some_iff.mp found with direct | ⟨_, other⟩
  · have itself := List.find?_some direct
    exact .single (mem_successors.mp (List.contains_iff_mem.mp itself))
  · rcases Option.or_eq_some_iff.mp other with finished | ⟨_, node⟩
    · exact (isOnCycle_iff formed).mp (List.find?_some finished)
    · exact (isOnCycle_iff formed).mp (List.find?_some node)

theorem cycleStart_none (formed : graph.WellFormed) (nothing : graph.cycleStart? = none)
    (step : String) : ¬ TransGen graph.Waits step step := by
  intro cycle
  unfold cycleStart? at nothing
  have last := (Option.or_eq_none_iff.mp (Option.or_eq_none_iff.mp nothing).2).2
  rcases Relation.TransGen.head'_iff.mp cycle with ⟨next, edge, _⟩
  refine List.find?_eq_none.mp last step (formed.mem_of_waits edge).1 ?_
  exact (isOnCycle_iff formed).mpr cycle

end SolutionLists.StepGraph
