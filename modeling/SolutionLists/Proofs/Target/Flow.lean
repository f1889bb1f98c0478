import Mathlib.Data.List.Nodup
import SolutionLists.Proofs.LanguageMap
import SolutionLists.Target.Directive

namespace SolutionLists

/-! How a setting flows through targets. Each target takes over what its parent hands
on, or a set that is written out, and adds items of its own; together they are what its
users get. Nothing but the statements about the targets counts. -/

def ParentPart.map {α β : Type} (change : α → β) : ParentPart α → ParentPart β
  | .inherited target => .inherited target
  | .resolved value => .resolved (change value)

theorem ParentPart.value_map {α β : Type} (change : α → β) (part : ParentPart α) (whole : α) :
    (part.map change).value (change whole) = change (part.value whole) := by
  cases part <;> rfl

/-- What one statement says about a setting of a target: the part it takes over and what
it adds for the users of the target. -/
structure Flow (α : Type) where
  target : String
  parent : ParentPart (Set α)
  own : Set α

namespace Flow

variable {α : Type}

/-- Whether an item reaches the users of a target. The context hands on `ofContext`. -/
inductive Reaches (flows : List (Flow α)) (ofContext : Set α) (item : α) : String → Prop
  | context (given : item ∈ ofContext) : Reaches flows ofContext item Target.context
  | inherited {flow : Flow α} {around : String} (said : flow ∈ flows)
      (lazily : flow.parent = .inherited around)
      (reached : Reaches flows ofContext item around) : Reaches flows ofContext item flow.target
  | resolved {flow : Flow α} {items : Set α} (said : flow ∈ flows)
      (eagerly : flow.parent = .resolved items) (inside : item ∈ items) :
      Reaches flows ofContext item flow.target
  | own {flow : Flow α} (said : flow ∈ flows) (inside : item ∈ flow.own) :
      Reaches flows ofContext item flow.target

def handedOn (flows : List (Flow α)) (ofContext : Set α) (target : String) : Set α :=
  fun item => Reaches flows ofContext item target

variable {flows : List (Flow α)} {ofContext : Set α}

theorem eq_of_target_eq (distinct : (flows.map target).Nodup) {first second : Flow α}
    (firstSaid : first ∈ flows) (secondSaid : second ∈ flows)
    (same : first.target = second.target) : first = second :=
  List.inj_on_of_nodup_map distinct firstSaid secondSaid same

theorem handedOn_context (distinct : (Target.context :: flows.map target).Nodup) :
    handedOn flows ofContext Target.context = ofContext := by
  have fresh : ∀ flow ∈ flows, flow.target ≠ Target.context := fun flow said same =>
    (List.nodup_cons.mp distinct).1 (same ▸ List.mem_map_of_mem said)
  ext item
  constructor
  · intro reaches
    generalize atContext : Target.context = site at reaches
    cases reaches with
    | context given => exact given
    | inherited said => exact absurd atContext.symm (fresh _ said)
    | resolved said => exact absurd atContext.symm (fresh _ said)
    | own said => exact absurd atContext.symm (fresh _ said)
  · exact .context

theorem handedOn_target (distinct : (Target.context :: flows.map target).Nodup)
    {flow : Flow α} (said : flow ∈ flows) :
    handedOn flows ofContext flow.target =
      (match flow.parent with
        | .inherited around => handedOn flows ofContext around
        | .resolved items => items) ∪ flow.own := by
  have parts := List.nodup_cons.mp distinct
  have only : ∀ other ∈ flows, flow.target = other.target → flow = other :=
    fun other otherSaid same => eq_of_target_eq parts.2 said otherSaid same
  ext item
  constructor
  · intro reaches
    generalize atTarget : flow.target = site at reaches
    cases reaches with
    | context => exact absurd (atTarget ▸ List.mem_map_of_mem said) parts.1
    | inherited otherSaid lazily reached =>
        cases only _ otherSaid atTarget
        rw [lazily]
        exact .inl reached
    | resolved otherSaid eagerly inside =>
        cases only _ otherSaid atTarget
        rw [eagerly]
        exact .inl inside
    | own otherSaid inside =>
        cases only _ otherSaid atTarget
        exact .inr inside
  · rintro (fromParent | inside)
    · cases parent : flow.parent with
      | inherited around =>
          rw [parent] at fromParent
          exact .inherited said parent fromParent
      | resolved items =>
          rw [parent] at fromParent
          exact .resolved said parent fromParent
    · exact .own said inside

end Flow

namespace Directive

/-- What a statement about include directories says, by bucket and path. -/
def includeFlow? : Directive → Option (Flow (Language × String))
  | includeDirectories target _ parent includes =>
      some
        { target
          parent := (parent.getD (.resolved .empty)).map LanguageMap.pairs
          own := includes.shownPairs }
  | _ => none

def defineFlow? : Directive → Option (Flow Define)
  | compileDefinitions target _ parent defines =>
      some
        { target
          parent := (parent.getD (.resolved [])).map fun list => {define | define ∈ list}
          own := {define | define ∈ defines} }
  | _ => none

end Directive

end SolutionLists
