import SolutionLists.Proofs.Target.Site

namespace SolutionLists

/-! Lists read from the front: what is true of each item together with those in front of
it. Of the sites of a context it is true that the groups around each come before it. -/

/-! ## Items in turn -/

section InTurn

variable {α β : Type}

/-- Whether something is true of each item of a list with the items in front of it, `before`
in front of all. -/
def InTurn (holds : List α → α → Prop) (before : List α) : List α → Prop
  | [] => True
  | item :: rest => holds before item ∧ InTurn holds (before ++ [item]) rest

variable {holds : List α → α → Prop} {before : List α}

theorem inTurn_append {first second : List α} :
    InTurn holds before (first ++ second) ↔
      InTurn holds before first ∧ InTurn holds (before ++ first) second := by
  induction first generalizing before with
  | nil => simp [InTurn]
  | cons item rest induction =>
      rw [List.cons_append, InTurn, InTurn, induction, and_assoc, List.append_assoc]
      rfl

theorem inTurn_ite {condition : Prop} [Decidable condition] {first second : List α}
    (atFirst : condition → InTurn holds before first)
    (atSecond : ¬ condition → InTurn holds before second) :
    InTurn holds before (if condition then first else second) := by
  split
  case isTrue met => exact atFirst met
  case isFalse unmet => exact atSecond unmet

theorem inTurn_iff_split {items : List α} :
    InTurn holds before items ↔ ∀ earlier item later,
      items = earlier ++ item :: later → holds (before ++ earlier) item := by
  constructor
  · intro turns earlier item later parts
    rw [parts] at turns
    exact (inTurn_append.mp turns).2.1
  · intro each
    induction items generalizing before with
    | nil => trivial
    | cons item rest induction =>
        refine ⟨?_, induction fun earlier other later parts => ?_⟩
        · simpa using each [] item rest rfl
        · simpa using each (item :: earlier) other later (by rw [parts, List.cons_append])

theorem InTurn.split {items earlier later : List α} {item : α} (turns : InTurn holds [] items)
    (parts : items = earlier ++ item :: later) : holds earlier item :=
  inTurn_iff_split.mp turns earlier item later parts

theorem InTurn.imp {other : List α → α → Prop} {items : List α}
    (turns : InTurn holds before items)
    (implied : ∀ more, ∀ item ∈ items, holds (before ++ more) item → other (before ++ more) item) :
    InTurn other before items := by
  refine inTurn_iff_split.mpr fun earlier item later parts => ?_
  have member : item ∈ items := by simp [parts]
  exact implied earlier item member (inTurn_iff_split.mp turns earlier item later parts)

theorem inTurn_flatMap {values : List β} {statements : β → List α}
    (each : ∀ earlier value later, values = earlier ++ value :: later →
      InTurn holds (before ++ earlier.flatMap statements) (statements value)) :
    InTurn holds before (values.flatMap statements) := by
  induction values generalizing before with
  | nil => trivial
  | cons value rest induction =>
      refine inTurn_append.mpr ⟨?_, induction fun earlier other later parts => ?_⟩
      · simpa using each [] value rest rfl
      · simpa using each (value :: earlier) other later (by rw [parts, List.cons_append])

end InTurn

namespace Target

/-! ## The groups around a site -/

/-- Whether the groups around a site are among the sites in front of it. Those in `around`
do not count. -/
def Enclosed (around : List Branch) (earlier : List Site) (site : Site) : Prop :=
  ∀ outer rest, outer :: rest <:+ site.around → outer :: rest <:+ around ∨
    (⟨outer, rest⟩ ∈ earlier ∧ outer.node.kind = .group ∧ outer.groups ≠ [])

mutual

theorem enclosed_sitesOfGroup (around : List Branch) (name : String) (earlier : List Site) :
    (group : Group) → InTurn (Enclosed around) earlier (sitesOfGroup around name group)
  | ⟨title, options, groups⟩ => by
      rw [sitesOfGroup]
      split
      case isFalse => trivial
      case isTrue =>
        refine ⟨fun outer rest enclosing => .inl enclosing, ?_⟩
        -- Below the group it is itself the nearest one around, and it has been met.
        refine (enclosed_sitesOfGroups _ _ _ groups).imp fun more site member within => ?_
        intro outer rest enclosing
        rcases within outer rest enclosing with further | met
        · rcases List.suffix_cons_iff.mp further with same | beyond
          · cases same
            refine .inr ⟨by simp, rfl, fun none => ?_⟩
            change groups = [] at none
            rw [none, sitesOfGroups] at member
            cases member
          · exact .inl beyond
        · exact .inr met

theorem enclosed_sitesOfGroups (around : List Branch) (start : String) (earlier : List Site) :
    (groups : List Group) → InTurn (Enclosed around) earlier (sitesOfGroups around start groups)
  | [] => by
      rw [sitesOfGroups]
      trivial
  | group :: rest => by
      rw [sitesOfGroups]
      exact inTurn_append.mpr ⟨enclosed_sitesOfGroup around _ earlier group,
        enclosed_sitesOfGroups around start _ rest⟩

end

theorem enclosed_groupSites (context : Context) :
    InTurn (Enclosed []) [] context.groupSites :=
  enclosed_sitesOfGroups [] "Group_" [] context.groups

theorem enclosed_componentSites (context : Context) :
    InTurn (Enclosed []) [] context.componentSites := by
  refine inTurn_iff_split.mpr fun earlier site later parts outer rest enclosing => .inl ?_
  have member : site ∈ context.componentSites := by simp [parts]
  rwa [Context.around_componentSites member] at enclosing

end Target

end SolutionLists
