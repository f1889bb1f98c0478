import SolutionLists.Proofs.Steps.Cycle

namespace SolutionLists.Steps

/-! Of all that steps wait for, only what contexts and commands declare themselves can
close a circle. Commands that always run and wait for nothing are waited for by all others
and wait for none; nothing waits for what gathers the commands behind a context. -/

open Relation (TransGen)

/-- The names of contexts and commands, and the steps that are made for contexts. -/
def names (contexts : List ContextReference) (executes : List Execute) : List String :=
  contexts.map (·.name) ++ executes.map (·.name) ++ contexts.map (buildStep ·.name) ++
    contexts.map (executesStep ·.name)

/-- Whether a context or command declares that it waits for another one that is listed. -/
def Declares (contexts : List ContextReference) (executes : List Execute)
    (name dependency : String) : Prop :=
  (dependency ∈ contexts.map (·.name) ∨ dependency ∈ executes.map (·.name)) ∧
    ((∃ context ∈ contexts, context.name = name ∧ dependency ∈ context.dependsOn) ∨
      ∃ execute ∈ executes, execute.name = name ∧ dependency ∈ execute.dependsOn)

instance (contexts : List ContextReference) (executes : List Execute)
    (name dependency : String) : Decidable (Declares contexts executes name dependency) :=
  inferInstanceAs (Decidable (_ ∧ _))

/-! ## Names that do not collide -/

structure Apart (contexts : List ContextReference) (executes : List Execute) : Prop where
  command : ∀ execute ∈ executes, ∀ other ∈ executes, execute.name = other.name → execute = other
  context_command : ∀ context ∈ contexts, ∀ execute ∈ executes, context.name ≠ execute.name
  build : ∀ context ∈ contexts, ∀ other ∈ contexts,
    buildStep context.name = buildStep other.name → context = other
  build_command : ∀ context ∈ contexts, ∀ execute ∈ executes,
    buildStep context.name ≠ execute.name
  gathering_command : ∀ context ∈ contexts, ∀ execute ∈ executes,
    executesStep context.name ≠ execute.name
  gathering_build : ∀ context ∈ contexts, ∀ other ∈ contexts,
    executesStep context.name ≠ buildStep other.name

theorem apart_of_nodup {contexts : List ContextReference} {executes : List Execute}
    (distinct : (names contexts executes).Nodup) : Apart contexts executes := by
  rcases List.nodup_append.mp distinct with ⟨named, _, gatherings⟩
  rcases List.nodup_append.mp named with ⟨described, builds, buildsApart⟩
  rcases List.nodup_append.mp described with ⟨_, commands, commandsApart⟩
  constructor
  · intro execute member other otherMember same
    exact List.inj_on_of_nodup_map commands member otherMember same
  · intro context member execute executeMember
    exact commandsApart _ (List.mem_map_of_mem member) _ (List.mem_map_of_mem executeMember)
  · intro context member other otherMember same
    exact List.inj_on_of_nodup_map builds member otherMember same
  · intro context member execute executeMember same
    refine buildsApart execute.name ?_ _ (List.mem_map_of_mem member) same.symm
    exact List.mem_append_right _ (List.mem_map_of_mem executeMember)
  · intro context member execute executeMember same
    refine gatherings execute.name ?_ _ (List.mem_map_of_mem member) same.symm
    exact List.mem_append_left _ (List.mem_append_right _ (List.mem_map_of_mem executeMember))
  · intro context member other otherMember same
    refine gatherings (buildStep other.name) ?_ _ (List.mem_map_of_mem member) same.symm
    exact List.mem_append_right _ (List.mem_map_of_mem otherMember)

variable {contexts : List ContextReference} {executes : List Execute}

/-! ## Steps and their names -/

theorem stepOf_context {context : ContextReference} (member : context ∈ contexts) :
    stepOf? contexts executes context.name = some (buildStep context.name) :=
  stepOf_eq_some.mpr (.inl ⟨List.mem_map_of_mem member, rfl⟩)

theorem Apart.stepOf_command (apart : Apart contexts executes) {execute : Execute}
    (member : execute ∈ executes) :
    stepOf? contexts executes execute.name = some execute.name := by
  have noContext : execute.name ∉ contexts.map (·.name) := by
    rw [List.mem_map]
    rintro ⟨context, known, same⟩
    exact apart.context_command context known execute member same
  exact stepOf_eq_some.mpr (.inr ⟨noContext, List.mem_map_of_mem member, rfl⟩)

theorem Apart.stepOf_injective (apart : Apart contexts executes) {first second step : String}
    (ofFirst : stepOf? contexts executes first = some step)
    (ofSecond : stepOf? contexts executes second = some step) : first = second := by
  rcases stepOf_cases ofFirst with ⟨context, member, rfl, made⟩ | ⟨execute, member, rfl, made⟩ <;>
    rcases stepOf_cases ofSecond with
      ⟨other, otherMember, rfl, same⟩ | ⟨other, otherMember, rfl, same⟩
  · rw [apart.build context member other otherMember (made.symm.trans same)]
  · exact absurd (made.symm.trans same) (apart.build_command context member other otherMember)
  · exact absurd (same.symm.trans made) (apart.build_command other otherMember execute member)
  · exact made.symm.trans same

theorem listed_of_stepOf {name step : String}
    (found : stepOf? contexts executes name = some step) :
    name ∈ contexts.map (·.name) ∨ name ∈ executes.map (·.name) := by
  rcases stepOf_eq_some.mp found with ⟨listed, _⟩ | ⟨_, listed, _⟩
  · exact .inl listed
  · exact .inr listed

/-! ## Declared and assembled dependencies -/

theorem Apart.waits_of_declares (apart : Apart contexts executes) {name dependency : String}
    (declared : Declares contexts executes name dependency) :
    ∃ step waited, stepOf? contexts executes name = some step ∧
      stepOf? contexts executes dependency = some waited ∧
      Waits contexts executes step waited := by
  have listed : ∃ waited, stepOf? contexts executes dependency = some waited := by
    rcases declared.1 with context | command
    · rcases List.mem_map.mp context with ⟨context, member, rfl⟩
      exact ⟨_, stepOf_context member⟩
    · rcases List.mem_map.mp command with ⟨execute, member, rfl⟩
      exact ⟨_, apart.stepOf_command member⟩
  rcases listed with ⟨waited, found⟩
  rcases declared.2 with ⟨context, member, rfl, listed⟩ | ⟨execute, member, rfl, listed⟩
  · have resolved := mem_resolve.mpr ⟨dependency, listed, found⟩
    exact ⟨_, waited, stepOf_context member, found, waits_build member (.inl resolved)⟩
  · have resolved := mem_resolve.mpr ⟨dependency, listed, found⟩
    exact ⟨_, waited, apart.stepOf_command member, found, waits_command member (.inl resolved)⟩

theorem Apart.independent_waits_not (apart : Apart contexts executes) {step next : String}
    (first : step ∈ independent executes) : ¬ Waits contexts executes step next := by
  rcases mem_independent.mp first with ⟨execute, member, alone, rfl⟩
  intro edge
  rcases waits_cases edge with ⟨context, known, same, _⟩ | ⟨other, known, same, waited⟩ |
    ⟨context, known, same, _⟩
  · exact apart.build_command context known execute member same.symm
  · cases apart.command execute member other known same
    simp only [Execute.isIndependent, Bool.and_eq_true, List.isEmpty_iff] at alone
    rcases waited with named | ⟨notAlways, _⟩
    · rcases mem_resolve.mp named with ⟨name, listed, _⟩
      rw [alone.2] at listed
      cases listed
    · rw [alone.1] at notAlways
      cases notAlways
  · exact apart.gathering_command context known execute member same.symm

theorem Apart.declares_of_waits (apart : Apart contexts executes) {name step waited next : String}
    (found : stepOf? contexts executes name = some step)
    (edge : Waits contexts executes step waited) (further : Waits contexts executes waited next) :
    ∃ dependency, stepOf? contexts executes dependency = some waited ∧
      Declares contexts executes name dependency := by
  have notIndependent : waited ∉ independent executes := fun first =>
    apart.independent_waits_not first further
  rcases waits_cases edge with ⟨context, known, rfl, named | first⟩ |
    ⟨execute, known, rfl, named | ⟨_, first⟩⟩ | ⟨context, known, rfl, _⟩
  · rcases mem_resolve.mp named with ⟨dependency, listed, resolved⟩
    cases apart.stepOf_injective found (stepOf_context known)
    exact ⟨dependency, resolved, listed_of_stepOf resolved, .inl ⟨context, known, rfl, listed⟩⟩
  · exact absurd first notIndependent
  · rcases mem_resolve.mp named with ⟨dependency, listed, resolved⟩
    cases apart.stepOf_injective found (apart.stepOf_command known)
    exact ⟨dependency, resolved, listed_of_stepOf resolved, .inr ⟨execute, known, rfl, listed⟩⟩
  · exact absurd first notIndependent
  · rcases stepOf_cases found with ⟨other, member, _, same⟩ | ⟨execute, member, _, same⟩
    · exact absurd same (apart.gathering_build context known other member)
    · exact absurd same (apart.gathering_command context known execute member)

theorem Apart.chain_declared (apart : Apart contexts executes) {name step last : String}
    (found : stepOf? contexts executes name = some step)
    (chain : TransGen (Waits contexts executes) step last) :
    ∀ next, Waits contexts executes last next →
      ∃ dependency, stepOf? contexts executes dependency = some last ∧
        TransGen (Declares contexts executes) name dependency := by
  -- A step inside the chain waits for the one behind it, the last one for `next`: none of
  -- them is independent.
  induction chain with
  | single edge =>
      intro next further
      rcases apart.declares_of_waits found edge further with ⟨dependency, resolved, declared⟩
      exact ⟨dependency, resolved, .single declared⟩
  | tail _ edge induction =>
      intro next further
      rcases induction _ edge with ⟨between, resolved, declared⟩
      rcases apart.declares_of_waits resolved edge further with ⟨dependency, same, last⟩
      exact ⟨dependency, same, declared.tail last⟩

theorem Apart.chain_waits (apart : Apart contexts executes) {name dependency : String}
    (chain : TransGen (Declares contexts executes) name dependency) :
    ∃ step waited, stepOf? contexts executes name = some step ∧
      stepOf? contexts executes dependency = some waited ∧
      TransGen (Waits contexts executes) step waited := by
  induction chain with
  | single declared =>
      rcases apart.waits_of_declares declared with ⟨step, waited, ofName, ofDependency, edge⟩
      exact ⟨step, waited, ofName, ofDependency, .single edge⟩
  | tail _ declared induction =>
      rcases induction with ⟨step, between, ofName, ofBetween, chain⟩
      rcases apart.waits_of_declares declared with ⟨same, waited, resolved, ofDependency, edge⟩
      cases ofBetween.symm.trans resolved
      exact ⟨step, waited, ofName, ofDependency, chain.tail edge⟩

theorem Apart.circle_iff (apart : Apart contexts executes) :
    (∃ step, TransGen (Waits contexts executes) step step) ↔
      ∃ name, TransGen (Declares contexts executes) name name := by
  constructor
  · rintro ⟨step, circle⟩
    rcases Relation.TransGen.head'_iff.mp circle with ⟨next, first, _⟩
    rcases Relation.TransGen.tail'_iff.mp circle with ⟨before, _, last⟩
    have named : ∃ name, stepOf? contexts executes name = some step := by
      rcases waited_for last with ⟨context, member, rfl⟩ | ⟨execute, member, rfl⟩
      · exact ⟨context.name, stepOf_context member⟩
      · exact ⟨execute.name, apart.stepOf_command member⟩
    rcases named with ⟨name, found⟩
    rcases apart.chain_declared found circle next first with ⟨dependency, same, chain⟩
    cases apart.stepOf_injective found same
    exact ⟨name, chain⟩
  · rintro ⟨name, circle⟩
    rcases apart.chain_waits circle with ⟨step, waited, found, same, chain⟩
    cases found.symm.trans same
    exact ⟨step, chain⟩

/-! ## Commands that wait for nothing -/

theorem declares_kept {name dependency next : String}
    (declared : Declares contexts executes name dependency)
    (further : Declares contexts executes dependency next) :
    Declares contexts (executes.filter (!·.isIndependent)) name dependency := by
  have kept : ∀ {execute : Execute} {waited : String}, execute ∈ executes →
      waited ∈ execute.dependsOn → execute ∈ executes.filter (!·.isIndependent) := by
    intro execute waited member listed
    have some : execute.dependsOn.isEmpty = false := by
      simpa using List.ne_nil_of_mem listed
    refine List.mem_filter.mpr ⟨member, ?_⟩
    rw [Execute.isIndependent, some, Bool.and_false]
    rfl
  constructor
  · rcases further.2 with ⟨context, member, rfl, _⟩ | ⟨execute, member, rfl, listed⟩
    · exact .inl (List.mem_map_of_mem member)
    · exact .inr (List.mem_map_of_mem (kept member listed))
  · rcases declared.2 with ofContext | ⟨execute, member, same, listed⟩
    · exact .inl ofContext
    · exact .inr ⟨execute, kept member listed, same, listed⟩

theorem chain_kept {name last : String}
    (chain : TransGen (Declares contexts executes) name last) :
    ∀ next, Declares contexts executes last next →
      TransGen (Declares contexts (executes.filter (!·.isIndependent))) name last := by
  induction chain with
  | single declared => exact fun next further => .single (declares_kept declared further)
  | tail _ declared induction =>
      intro next further
      exact (induction _ declared).tail (declares_kept declared further)

theorem circle_kept_iff :
    (∃ name, TransGen (Declares contexts (executes.filter (!·.isIndependent))) name name) ↔
      ∃ name, TransGen (Declares contexts executes) name name := by
  constructor
  · have wider : ∀ first second,
        Declares contexts (executes.filter (!·.isIndependent)) first second →
          Declares contexts executes first second := by
      rintro first second ⟨listed, declared⟩
      refine ⟨listed.imp_right fun command => ?_, declared.imp_right fun command => ?_⟩
      · rcases List.mem_map.mp command with ⟨execute, member, same⟩
        exact List.mem_map.mpr ⟨execute, (List.mem_filter.mp member).1, same⟩
      · rcases command with ⟨execute, member, same⟩
        exact ⟨execute, (List.mem_filter.mp member).1, same⟩
    rintro ⟨name, circle⟩
    exact ⟨name, TransGen.mono wider _ _ circle⟩
  · rintro ⟨name, circle⟩
    rcases Relation.TransGen.head'_iff.mp circle with ⟨next, first, _⟩
    exact ⟨name, chain_kept circle next first⟩

/-- Steps are refused exactly where contexts and commands declare a circle, and commands
that always run and wait for nothing make no difference. -/
theorem dependencies_refuse_declared_circles (contexts : List ContextReference)
    (executes : List Execute) (distinct : (names contexts executes).Nodup) :
    ((∃ error, dependencies contexts executes = .error error) ↔
      ∃ name, TransGen (Declares contexts executes) name name) ∧
    ∀ others : List Execute, (names contexts others).Nodup →
      others.filter (!·.isIndependent) = executes.filter (!·.isIndependent) →
      ((∃ list, dependencies contexts others = .ok list) ↔
        ∃ list, dependencies contexts executes = .ok list) := by
  have passed : ∀ {commands : List Execute}, (names contexts commands).Nodup →
      ((∃ list, dependencies contexts commands = .ok list) ↔
        ¬ ∃ name, TransGen (Declares contexts commands) name name) := fun distinct =>
    dependencies_ok_iff.trans (not_congr (apart_of_nodup distinct).circle_iff)
  constructor
  · rw [← not_iff_not, ← passed distinct]
    cases dependencies contexts executes with
    | ok list => simp
    | error error => simp
  · intro others othersDistinct same
    rw [passed othersDistinct, passed distinct, ← circle_kept_iff, same, circle_kept_iff]

private def waitingContexts : List ContextReference :=
  [{ project := "core", configuration := ".Debug", dependsOn := ["prepare", "sign"] },
    { project := "boot", configuration := ".Debug", dependsOn := ["core.Debug"] }]

private def waitingCommands : List Execute :=
  [{ name := "sign", dependsOn := ["boot.Debug"] },
    { name := "log", always := true, dependsOn := ["sign"] }]

theorem dependencies_refuse_declared_circles_sign :
    (∃ error, dependencies waitingContexts waitingCommands = .error error) ∧
      ¬ ∃ list, dependencies waitingContexts
        ({ name := "prepare", always := true } :: waitingCommands) = .ok list := by
  have distinct : (names waitingContexts waitingCommands).Nodup := by decide +kernel
  have wider : (names waitingContexts
      ({ name := "prepare", always := true } :: waitingCommands)).Nodup := by decide +kernel
  rcases dependencies_refuse_declared_circles waitingContexts waitingCommands distinct with
    ⟨refused, same⟩
  have signed : Declares waitingContexts waitingCommands "core.Debug" "sign" := by
    decide +kernel
  have booted : Declares waitingContexts waitingCommands "sign" "boot.Debug" := by
    decide +kernel
  have based : Declares waitingContexts waitingCommands "boot.Debug" "core.Debug" := by
    decide +kernel
  have circle : TransGen (Declares waitingContexts waitingCommands) "core.Debug" "core.Debug" :=
    .tail (.tail (.single signed) booted) based
  rcases refused.mpr ⟨_, circle⟩ with ⟨error, failed⟩
  refine ⟨⟨error, failed⟩, fun passed => ?_⟩
  rcases (same _ wider rfl).mp passed with ⟨list, succeeded⟩
  rw [failed] at succeeded
  cases succeeded

end SolutionLists.Steps
