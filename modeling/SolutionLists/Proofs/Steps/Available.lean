import SolutionLists.Proofs.Steps.Cycle

namespace SolutionLists.Steps

/-! The commands that can run. Dropping those that wait for a missing step, round after
round, keeps as many commands as can do with the contexts and each other: one goes at
whatever distance it waits for something missing, and those that only wait for each other
stay, to be refused as a circle. -/

variable {contexts : List ContextReference} {executes others : List Execute}

def runnable (contexts : List ContextReference) (executes : List Execute) : List Execute :=
  (available (contexts.map (·.name)) executes).1

/-- Whether a name is that of a context or of a command. -/
def Listed (contexts : List ContextReference) (executes : List Execute) (name : String) : Prop :=
  name ∈ contexts.map (·.name) ∨ name ∈ executes.map (·.name)

instance (contexts : List ContextReference) (executes : List Execute) (name : String) :
    Decidable (Listed contexts executes name) :=
  inferInstanceAs (Decidable (_ ∨ _))

/-- Whether commands wait for nothing but contexts and each other. -/
def Closed (contexts : List ContextReference) (executes : List Execute) : Prop :=
  ∀ execute ∈ executes, ∀ name ∈ execute.dependsOn, Listed contexts executes name

instance (contexts : List ContextReference) (executes : List Execute) :
    Decidable (Closed contexts executes) :=
  inferInstanceAs (Decidable (∀ execute ∈ executes, ∀ name ∈ execute.dependsOn, _))

/-- What is left of the commands when no more of them are dropped than have to be. -/
structure LargestClosed (contexts : List ContextReference) (executes kept : List Execute) :
    Prop where
  sublist : kept.Sublist executes
  closed : Closed contexts kept
  largest : ∀ others : List Execute, others.Sublist executes → Closed contexts others →
    others.Sublist kept

theorem LargestClosed.unique {first second : List Execute}
    (isFirst : LargestClosed contexts executes first)
    (isSecond : LargestClosed contexts executes second) : first = second := by
  apply List.Sublist.antisymm
  · exact isSecond.largest first isFirst.sublist isFirst.closed
  · exact isFirst.largest second isSecond.sublist isSecond.closed

theorem Closed.largest (closed : Closed contexts executes) :
    LargestClosed contexts executes executes :=
  ⟨List.Sublist.refl executes, closed, fun _ sublist _ => sublist⟩

theorem Listed.mono {name : String} (listed : Listed contexts executes name)
    (within : executes ⊆ others) : Listed contexts others name :=
  listed.imp_right fun command => List.map_subset _ within command

theorem Closed.filter (closed : Closed contexts others) (within : others ⊆ executes) :
    Closed contexts (executes.filter (· ∈ others)) := by
  intro execute member name waited
  have kept : execute ∈ others := of_decide_eq_true (List.mem_filter.mp member).2
  apply (closed execute kept name waited).mono
  intro other otherKept
  exact List.mem_filter.mpr ⟨within otherKept, decide_eq_true otherKept⟩

/-! ## One round -/

theorem isAvailable_iff {execute : Execute} :
    isAvailable (contexts.map (·.name)) executes execute = true ↔
      ∀ name ∈ execute.dependsOn, Listed contexts executes name := by
  simp [isAvailable, Listed]

theorem closed_of_availableNow (same : availableNow (contexts.map (·.name)) executes = executes) :
    Closed contexts executes := by
  intro execute member
  exact isAvailable_iff.mp (List.filter_eq_self.mp same execute member)

theorem Closed.sublist_availableNow (closed : Closed contexts others)
    (sublist : others.Sublist executes) :
    others.Sublist (availableNow (contexts.map (·.name)) executes) := by
  have passed : others.filter (isAvailable (contexts.map (·.name)) executes) = others := by
    apply List.filter_eq_self.mpr
    intro execute member
    apply isAvailable_iff.mpr
    intro name waited
    exact (closed execute member name waited).mono sublist.subset
  rw [← passed]
  exact sublist.filter _

/-! ## All rounds -/

theorem runnable_induction {motive : List Execute → List Execute → Prop}
    (done : ∀ executes, availableNow (contexts.map (·.name)) executes = executes →
      motive executes executes)
    (round : ∀ executes kept, motive (availableNow (contexts.map (·.name)) executes) kept →
      motive executes kept)
    (executes : List Execute) : motive executes (runnable contexts executes) := by
  rw [runnable]
  fun_induction available (contexts.map (·.name)) executes with
  | case1 executes shorter left log result induction =>
      rw [result] at induction
      exact round executes left induction
  | case2 executes longest =>
      apply done
      exact List.filter_sublist.eq_of_length_le (Nat.le_of_not_lt longest)

theorem largestClosed_runnable (contexts : List ContextReference) (executes : List Execute) :
    LargestClosed contexts executes (runnable contexts executes) := by
  apply runnable_induction (motive := LargestClosed contexts)
  case done => exact fun executes same => (closed_of_availableNow same).largest
  case round =>
    intro executes kept left
    constructor
    case sublist => exact left.sublist.trans List.filter_sublist
    case closed => exact left.closed
    case largest =>
      intro others sublist closed
      exact left.largest others (closed.sublist_availableNow sublist) closed

theorem runnable_of_closed (closed : Closed contexts executes) :
    runnable contexts executes = executes :=
  (largestClosed_runnable contexts executes).unique closed.largest

theorem Closed.subset_runnable (closed : Closed contexts others) (within : others ⊆ executes) :
    others ⊆ runnable contexts executes := by
  have whole := (largestClosed_runnable contexts executes).largest _ List.filter_sublist
    (closed.filter within)
  intro execute member
  exact whole.subset (List.mem_filter.mpr ⟨within member, decide_eq_true member⟩)

theorem runnable_reorder {order : List Execute}
    (same : ∀ execute, execute ∈ order ↔ execute ∈ executes) :
    runnable contexts order = order.filter (· ∈ runnable contexts executes) := by
  have ofExecutes := largestClosed_runnable contexts executes
  apply (largestClosed_runnable contexts order).unique
  constructor
  case sublist => exact List.filter_sublist
  case closed =>
    apply ofExecutes.closed.filter
    intro execute member
    exact (same execute).mpr (ofExecutes.sublist.subset member)
  case largest =>
    intro others sublist closed
    have kept : others.filter (· ∈ runnable contexts executes) = others := by
      apply List.filter_eq_self.mpr
      intro execute member
      apply decide_eq_true
      apply closed.subset_runnable _ member
      exact fun other otherMember => (same other).mp (sublist.subset otherMember)
    rw [← kept]
    exact sublist.filter _

theorem runnable_perm {order : List Execute} (permuted : order.Perm executes) :
    (runnable contexts order).Perm (runnable contexts executes) := by
  calc runnable contexts order
      = order.filter (· ∈ runnable contexts executes) := runnable_reorder fun _ => permuted.mem_iff
    List.Perm _ (executes.filter (· ∈ runnable contexts executes)) := permuted.filter _
    _ = runnable contexts executes := (runnable_reorder fun _ => Iff.rfl).symm

/-! ## What the commands that can run wait for -/

/-- The step of a context or a command that is listed under a name. -/
def stepNamed (contexts : List ContextReference) (name : String) : String :=
  if name ∈ contexts.map (·.name) then buildStep name else name

theorem stepOf_of_listed {name : String} (listed : Listed contexts executes name) :
    stepOf? contexts executes name = some (stepNamed contexts name) := by
  rw [stepOf_eq_some, StandsFor, stepNamed]
  split
  case isTrue context => exact .inl ⟨context, rfl⟩
  case isFalse absent => exact .inr ⟨absent, listed.resolve_left absent, rfl⟩

theorem Closed.unresolvedLog_eq_nil (closed : Closed contexts executes) {execute : Execute}
    (member : execute ∈ executes) :
    unresolvedLog (contexts.map (·.name)) executes execute.name execute.dependsOn = [] := by
  rw [unresolvedLog, List.map_eq_nil_iff, List.filter_eq_nil_iff]
  intro name waited
  have found := stepOf_of_listed (closed execute member name waited)
  rw [stepOf?] at found
  simp [found]

theorem Closed.entriesLog_eq (closed : Closed contexts executes) :
    entriesLog contexts executes = contexts.flatMap fun context =>
      unresolvedLog (contexts.map (·.name)) executes context.name context.dependsOn := by
  have silent : (executes.flatMap fun execute =>
      unresolvedLog (contexts.map (·.name)) executes execute.name execute.dependsOn) = [] :=
    List.flatMap_eq_nil_iff.mpr fun execute member => closed.unresolvedLog_eq_nil member
  simp only [entriesLog]
  rw [silent, List.append_nil]

theorem Closed.commandWaits (closed : Closed contexts executes) {execute : Execute}
    (member : execute ∈ executes) {name : String} (waited : name ∈ execute.dependsOn) :
    CommandWaits contexts executes execute (stepNamed contexts name) :=
  .inl (mem_resolve.mpr ⟨name, waited, stepOf_of_listed (closed execute member name waited)⟩)

theorem Closed.exists_entry (closed : Closed contexts executes) {execute : Execute}
    (member : execute ∈ executes) (waiting : execute.dependsOn ≠ []) :
    ∃ steps, (execute.name, steps) ∈ entries contexts executes ∧
      execute.dependsOn.map (stepNamed contexts) ⊆ steps := by
  have named : execute.dependsOn.map (stepNamed contexts) ⊆
      (executeEntry (contexts.map (·.name)) executes execute).2 := by
    intro step listed
    rcases List.mem_map.mp listed with ⟨name, waited, rfl⟩
    exact mem_executeEntry.mpr (closed.commandWaits member waited)
  refine ⟨_, List.mem_filter.mpr ⟨?_, ?_⟩, named⟩
  · apply List.mem_append_left
    apply List.mem_append_right
    exact List.mem_map_of_mem member
  · rcases List.exists_mem_of_ne_nil _ waiting with ⟨name, waited⟩
    apply decide_eq_true
    exact List.ne_nil_of_mem (named (List.mem_map_of_mem waited))

/-- What is left when commands that wait for missing steps are dropped is the largest part of
them that waits for nothing but contexts and itself. No further pass drops any of it, in
another order the same commands are left, and none of what they wait for is passed over when
the dependencies are assembled. -/
theorem available_keeps_largest_closed (contexts : List ContextReference)
    (executes : List Execute) :
    LargestClosed contexts executes (runnable contexts executes) ∧
    runnable contexts (runnable contexts executes) = runnable contexts executes ∧
    (∀ order : List Execute, order.Perm executes →
      (runnable contexts order).Perm (runnable contexts executes) ∧
        runnable contexts order = order.filter (· ∈ runnable contexts executes)) ∧
    (entriesLog contexts (runnable contexts executes) = contexts.flatMap fun context =>
      unresolvedLog (contexts.map (·.name)) (runnable contexts executes) context.name
        context.dependsOn) ∧
    (∀ execute ∈ runnable contexts executes, ∀ name ∈ execute.dependsOn,
      Waits contexts (runnable contexts executes) execute.name (stepNamed contexts name)) ∧
    ∀ list, dependencies contexts (runnable contexts executes) = .ok list →
      ∀ execute ∈ runnable contexts executes, execute.dependsOn ≠ [] →
        ∃ steps, (execute.name, steps) ∈ list ∧
          execute.dependsOn.map (stepNamed contexts) ⊆ steps := by
  have largest := largestClosed_runnable contexts executes
  have closed := largest.closed
  refine ⟨largest, runnable_of_closed closed, ?_, closed.entriesLog_eq, ?_, ?_⟩
  · intro order permuted
    exact ⟨runnable_perm permuted, runnable_reorder fun _ => permuted.mem_iff⟩
  · intro execute member name waited
    exact waits_command member (closed.commandWaits member waited)
  · intro list passed execute member waiting
    rw [(dependencies_eq_ok passed).1]
    exact closed.exists_entry member waiting

private def mergingContexts : List ContextReference :=
  [{ project := "app", configuration := ".debug" }]

private def archive : Execute := { name := "Archive", dependsOn := ["app.debug"] }

private def pack : Execute := { name := "Pack", dependsOn := ["Unpack"] }

private def unpack : Execute := { name := "Unpack", dependsOn := ["Pack", "Archive"] }

/-- The context of the bootloader is missing: what merges its signed image goes with the
signing, and the commands that wait for each other stay. -/
private def mergingCommands : List Execute :=
  [{ name := "Merge", dependsOn := ["SignBoot", "app.debug"] }, archive,
    { name := "SignBoot", dependsOn := ["boot.debug"] }, pack, unpack]

theorem available_keeps_largest_closed_merging :
    ¬ Closed mergingContexts mergingCommands ∧
      LargestClosed mergingContexts mergingCommands [archive, pack, unpack] ∧
      runnable mergingContexts mergingCommands.reverse = [unpack, pack, archive] ∧
      Waits mergingContexts [archive, pack, unpack] "Archive" "app.debug-build" := by
  have left : runnable mergingContexts mergingCommands = [archive, pack, unpack] := by
    decide +kernel
  rcases available_keeps_largest_closed mergingContexts mergingCommands with
    ⟨largest, _, permuted, _, waits, _⟩
  rw [left] at largest permuted waits
  refine ⟨by decide +kernel, largest, ?_, ?_⟩
  · rw [(permuted mergingCommands.reverse (List.reverse_perm _)).2]
    decide +kernel
  · have step : stepNamed mergingContexts "app.debug" = "app.debug-build" := by decide +kernel
    rw [← step]
    exact waits archive (by decide +kernel) "app.debug" (by decide +kernel)

end SolutionLists.Steps
