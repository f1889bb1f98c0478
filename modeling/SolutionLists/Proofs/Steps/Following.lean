import SolutionLists.Proofs.Steps.Cycle

namespace SolutionLists.Steps

/-! The commands behind a context. The search for them meets every name once, whichever
branch comes to it first, and yet finds every chain of commands that leads to the context. -/

open Relation (ReflTransGen)

variable {executes : List Execute} {context : String}

/-- Whether a command waits for another one that does not always run. -/
def WaitsOn (executes : List Execute) (execute next : Execute) : Prop :=
  next ∈ executes ∧ next.always = false ∧ next.name ∈ execute.dependsOn

/-- Whether a chain of commands, in which only the first may always run, ends with one that
waits for the context. -/
def Behind (executes : List Execute) (context : String) (execute : Execute) : Prop :=
  ∃ last, ReflTransGen (WaitsOn executes) execute last ∧ context ∈ last.dependsOn

theorem mem_followed {execute next : Execute} :
    next ∈ followed executes execute ↔ WaitsOn executes execute next := by
  simp only [followed, WaitsOn, List.mem_flatMap, List.mem_filter, Bool.and_eq_true,
    Bool.not_eq_true', decide_eq_true_eq]
  constructor
  · rintro ⟨name, waited, known, runs, rfl⟩
    exact ⟨known, runs, waited⟩
  · rintro ⟨known, runs, waited⟩
    exact ⟨next.name, waited, known, runs, rfl⟩

theorem Behind.through {execute next : Execute} (behind : Behind executes context next)
    (waits : WaitsOn executes execute next) : Behind executes context execute := by
  rcases behind with ⟨last, chain, waited⟩
  exact ⟨last, chain.head waits, waited⟩

/-! ## What is found -/

theorem behind_of_leadsTo (met : List String) (stack : List Execute)
    (found : leadsTo executes context met stack = true) :
    ∃ execute ∈ stack, Behind executes context execute := by
  fun_induction leadsTo executes context met stack with
  | case1 => cases found
  | case2 met first rest passed induction =>
      rcases induction found with ⟨execute, later, behind⟩
      exact ⟨execute, List.mem_cons_of_mem _ later, behind⟩
  | case3 met first rest fresh waited =>
      exact ⟨first, List.mem_cons_self, first, .refl, waited⟩
  | case4 met first rest fresh others induction =>
      rcases induction found with ⟨execute, member, behind⟩
      rcases List.mem_append.mp member with next | later
      · exact ⟨first, List.mem_cons_self, behind.through (mem_followed.mp next)⟩
      · exact ⟨execute, List.mem_cons_of_mem _ later, behind⟩

/-! ## What is not missed -/

/-- A search that has found nothing yet: no command that was met waits for the context, and
those that it waits for were met or are still to come. -/
structure Searched (executes : List Execute) (context : String) (met : List String)
    (stack : List Execute) : Prop where
  vain : ∀ execute ∈ executes, execute.name ∈ met → context ∉ execute.dependsOn
  pending : ∀ execute ∈ executes, execute.name ∈ met → ∀ next, WaitsOn executes execute next →
    next.name ∈ met ∨ next ∈ stack

variable {met : List String} {first : Execute} {rest : List Execute}

theorem Searched.pass (searched : Searched executes context met (first :: rest))
    (passed : first.name ∈ met ∨ first ∉ executes) : Searched executes context met rest where
  vain := searched.vain
  pending := by
    intro execute member known next waits
    rcases searched.pending execute member known next waits with inMet | onStack
    · exact .inl inMet
    · rcases List.mem_cons.mp onStack with rfl | later
      · exact .inl (passed.resolve_right (not_not_intro waits.1))
      · exact .inr later

/-- A command that is met puts all that it waits for on the stack. Names are distinct, so no
other command is taken for met with it. -/
theorem Searched.meet (distinct : (executes.map (·.name)).Nodup)
    (searched : Searched executes context met (first :: rest)) (member : first ∈ executes)
    (other : context ∉ first.dependsOn) :
    Searched executes context (first.name :: met) (followed executes first ++ rest) := by
  have firstOrOlder : ∀ execute ∈ executes, execute.name ∈ first.name :: met →
      execute = first ∨ execute.name ∈ met := by
    intro execute executeMember known
    rcases List.mem_cons.mp known with same | older
    · exact .inl (List.inj_on_of_nodup_map distinct executeMember member same)
    · exact .inr older
  constructor
  case vain =>
    intro execute executeMember known
    rcases firstOrOlder execute executeMember known with rfl | older
    · exact other
    · exact searched.vain execute executeMember older
  case pending =>
    intro execute executeMember known next waits
    rcases firstOrOlder execute executeMember known with rfl | older
    · exact .inr (List.mem_append_left _ (mem_followed.mpr waits))
    · rcases searched.pending execute executeMember older next waits with inMet | onStack
      · exact .inl (List.mem_cons_of_mem _ inMet)
      · rcases List.mem_cons.mp onStack with rfl | later
        · exact .inl List.mem_cons_self
        · exact .inr (List.mem_append_right _ later)

theorem searched_of_not_leadsTo (distinct : (executes.map (·.name)).Nodup) (met : List String)
    (stack : List Execute) (missed : leadsTo executes context met stack = false)
    (searched : Searched executes context met stack) :
    ∃ all, met ⊆ all ∧ (∀ execute ∈ stack, execute ∈ executes → execute.name ∈ all) ∧
      Searched executes context all [] := by
  fun_induction leadsTo executes context met stack with
  | case1 met =>
      refine ⟨met, List.Subset.refl met, ?_, searched⟩
      exact fun execute absent => absurd absent List.not_mem_nil
  | case2 met first rest passed induction =>
      rcases induction missed (searched.pass passed) with ⟨all, within, stacked, ended⟩
      refine ⟨all, within, ?_, ended⟩
      intro execute member known
      rcases List.mem_cons.mp member with rfl | later
      · exact within (passed.resolve_right (not_not_intro known))
      · exact stacked execute later known
  | case3 met first rest fresh waited => cases missed
  | case4 met first rest fresh other induction =>
      have known : first ∈ executes := by
        by_contra absent
        exact fresh (.inr absent)
      rcases induction missed (searched.meet distinct known other) with
        ⟨all, within, stacked, ended⟩
      have firstMet : first.name ∈ all := within List.mem_cons_self
      refine ⟨all, fun name older => within (List.mem_cons_of_mem _ older), ?_, ended⟩
      intro execute member executeKnown
      rcases List.mem_cons.mp member with rfl | later
      · exact firstMet
      · exact stacked execute (List.mem_append_right _ later) executeKnown

theorem Searched.not_behind (searched : Searched executes context met []) {execute : Execute}
    (member : execute ∈ executes) (known : execute.name ∈ met) :
    ¬ Behind executes context execute := by
  rintro ⟨last, chain, waited⟩
  induction chain using Relation.ReflTransGen.head_induction_on with
  | refl => exact searched.vain last member known waited
  | head waits _ induction =>
      have next := searched.pending _ member known _ waits
      exact induction waits.1 (next.resolve_right List.not_mem_nil)

theorem follows_iff (distinct : (executes.map (·.name)).Nodup) {execute : Execute}
    (member : execute ∈ executes) :
    follows executes context execute = true ↔ Behind executes context execute := by
  rw [follows]
  constructor
  · intro found
    rcases behind_of_leadsTo [] [execute] found with ⟨first, only, behind⟩
    exact List.mem_singleton.mp only ▸ behind
  · intro behind
    by_contra missed
    have nothingMet : Searched executes context [] [execute] := by
      constructor
      case vain => exact fun _ _ absent => absurd absent List.not_mem_nil
      case pending => exact fun _ _ absent => absurd absent List.not_mem_nil
    rcases searched_of_not_leadsTo distinct [] [execute] (Bool.not_eq_true _ ▸ missed)
      nothingMet with ⟨all, _, stacked, searched⟩
    exact searched.not_behind member (stacked execute List.mem_cons_self member) behind

/-! ## The entries behind contexts -/

/-- The commands that the entry behind a context gathers, those that run before everything
else apart. -/
def following (executes : List Execute) (context : String) : List Execute :=
  executes.filter fun execute => !execute.always && follows executes context execute

/-- The steps that the entry behind a context names. -/
def gathered (executes : List Execute) (context : String) : List String :=
  (following executes context).map (·.name) ++ independent executes

theorem mem_following (distinct : (executes.map (·.name)).Nodup) {execute : Execute} :
    execute ∈ following executes context ↔
      execute ∈ executes ∧ execute.always = false ∧ Behind executes context execute := by
  rw [following, List.mem_filter, Bool.and_eq_true, Bool.not_eq_true']
  apply and_congr_right
  intro member
  rw [follows_iff distinct member]

theorem nodup_gathered (distinct : (executes.map (·.name)).Nodup) (context : String) :
    (gathered executes context).Nodup := by
  have once : ∀ kept : List Execute, kept.Sublist executes → (kept.map (·.name)).Nodup :=
    fun kept sublist => (sublist.map _).nodup distinct
  apply List.nodup_append.mpr
  refine ⟨once _ List.filter_sublist, once _ List.filter_sublist, ?_⟩
  intro name gatheredName other first same
  rcases List.mem_map.mp gatheredName with ⟨execute, member, rfl⟩
  rcases mem_independent.mp first with ⟨always, known, alone, rfl⟩
  rcases (mem_following distinct).mp member with ⟨executeKnown, runs, _⟩
  cases List.inj_on_of_nodup_map distinct executeKnown known same
  rw [Execute.isIndependent, runs] at alone
  cases alone

theorem executesEntry_eq (distinct : (executes.map (·.name)).Nodup) (context : String) :
    executesEntry executes context = (executesStep context, gathered executes context) := by
  have new := Ordered.append_of_nodup (nodup_gathered distinct context)
  exact congrArg (Prod.mk (executesStep context)) new

/-- The entries of all steps: those of builds and commands in front of those behind contexts. -/
theorem entries_eq (distinct : (executes.map (·.name)).Nodup) (contexts : List ContextReference) :
    entries contexts executes =
      (contexts.map (buildEntry (contexts.map (·.name)) executes) ++
          executes.map (executeEntry (contexts.map (·.name)) executes)).filter (·.2 ≠ []) ++
        (contexts.map fun context =>
          (executesStep context.name, gathered executes context.name)).filter (·.2 ≠ []) := by
  simp only [entries]
  rw [List.filter_append, List.map_map]
  congr 2
  apply List.map_congr_left
  intro context _
  exact executesEntry_eq distinct context.name

/-- Whether a list is that of the commands behind a context, in the order of the index, and
then of those that run before everything else. -/
structure Gathers (executes : List Execute) (context : String) (steps : List String) : Prop where
  nodup : steps.Nodup
  parts : ∃ commands : List Execute,
    steps = commands.map (·.name) ++ independent executes ∧ commands.Sublist executes ∧
      ∀ execute ∈ executes, execute ∈ commands ↔
        execute.always = false ∧ Behind executes context execute

theorem gathers_gathered (distinct : (executes.map (·.name)).Nodup) (context : String) :
    Gathers executes context (gathered executes context) where
  nodup := nodup_gathered distinct context
  parts := by
    refine ⟨following executes context, rfl, List.filter_sublist, ?_⟩
    intro execute member
    rw [mem_following distinct, and_iff_right member]

/-- The search for the commands behind a context finds exactly those from which a chain of
commands leads there. The entry behind each context lists them, with the commands that run
before everything else behind them; without any there is no entry. -/
theorem executes_entries_gather_chains (executes : List Execute)
    (distinct : (executes.map (·.name)).Nodup) :
    (∀ execute ∈ executes, ∀ context,
      follows executes context execute = true ↔ Behind executes context execute) ∧
    (∀ context, Gathers executes context (gathered executes context)) ∧
    ∀ contexts list, dependencies contexts executes = .ok list →
      ∃ others : List (String × List String),
        (∀ entry ∈ others, entry.1 ∈ contexts.map (buildStep ·.name) ∨
          entry.1 ∈ executes.map (·.name)) ∧
        list = others ++ (contexts.map fun context =>
          (executesStep context.name, gathered executes context.name)).filter (·.2 ≠ []) := by
  refine ⟨fun execute member context => follows_iff distinct member,
    gathers_gathered distinct, ?_⟩
  intro contexts list passed
  refine ⟨_, ?_, (dependencies_eq_ok passed).1.trans (entries_eq distinct contexts)⟩
  intro entry member
  rcases List.mem_append.mp (List.mem_filter.mp member).1 with build | command
  · rcases List.mem_map.mp build with ⟨context, known, rfl⟩
    exact .inl (List.mem_map_of_mem known)
  · rcases List.mem_map.mp command with ⟨execute, known, rfl⟩
    exact .inr (List.mem_map_of_mem known)

private def signedContexts : List ContextReference :=
  [{ project := "app", configuration := ".debug" }, { project := "boot" }]

private def audit : Execute := { name := "Audit", dependsOn := ["Upload"] }

/-- Two chains lead from the merging to the signing, and the audit waits for a command that
always runs. -/
private def signedCommands : List Execute :=
  [{ name := "Clean", always := true }, { name := "Merge", dependsOn := ["Report", "Sign"] },
    { name := "Sign", dependsOn := ["app.debug"] }, { name := "Report", dependsOn := ["Sign"] },
    { name := "Upload", always := true, dependsOn := ["Merge"] }, audit]

private theorem signedCommands_distinct : (signedCommands.map (·.name)).Nodup := by
  decide +kernel

private theorem signedCommands_gathered :
    (signedContexts.map fun context =>
      (executesStep context.name, gathered signedCommands context.name)) =
      [("app.debug-executes", ["Merge", "Sign", "Report", "Clean"]),
        ("boot-executes", ["Clean"])] := by
  cbv

private theorem signedCommands_dependencies :
    dependencies signedContexts signedCommands = .ok (entries signedContexts signedCommands) := by
  let order := ["Clean", "app.debug-build", "boot-build", "Sign", "Report", "Merge", "Upload",
    "Audit", "app.debug-executes", "boot-executes"]
  apply dependencies_ok_of_shrinking order.idxOf
  case inEntries =>
    rw [entries_eq signedCommands_distinct, signedCommands_gathered]
    decide +kernel
  case behind => decide +kernel

theorem executes_entries_gather_chains_signed :
    ¬ Behind signedCommands "app.debug" audit ∧
      ∃ list others, dependencies signedContexts signedCommands = .ok list ∧
        list = others ++ [("app.debug-executes", ["Merge", "Sign", "Report", "Clean"]),
          ("boot-executes", ["Clean"])] := by
  rcases executes_entries_gather_chains signedCommands signedCommands_distinct with
    ⟨found, _, gathers⟩
  rcases gathers signedContexts _ signedCommands_dependencies with ⟨others, _, listed⟩
  constructor
  · rw [← found audit (by decide +kernel)]
    have missed : follows signedCommands "app.debug" audit = false := by cbv
    rw [missed]
    exact Bool.false_ne_true
  · rw [signedCommands_gathered] at listed
    exact ⟨_, others, signedCommands_dependencies, listed⟩

end SolutionLists.Steps
