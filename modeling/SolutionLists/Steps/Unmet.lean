namespace SolutionLists.Steps

/-! How many items a walk has not met yet, by their keys. A walk that meets a new item
at every other step ends, for this number falls. -/

variable {Item Key : Type} [DecidableEq Key]

def unmet (key : Item → Key) (items : List Item) (met : List Key) : Nat :=
  items.countP fun item => decide (key item ∉ met)

theorem unmet_cons_le (key : Item → Key) (items : List Item) (met : List Key) (new : Key) :
    unmet key items (new :: met) ≤ unmet key items met :=
  List.countP_mono_left fun item _ outside => by
    simp only [List.mem_cons, not_or, decide_eq_true_eq] at outside ⊢
    exact outside.2

theorem unmet_cons_lt (key : Item → Key) {items : List Item} {met : List Key} {item : Item}
    (known : item ∈ items) (new : key item ∉ met) :
    unmet key items (key item :: met) < unmet key items met := by
  obtain ⟨front, back, rfl⟩ := List.append_of_mem known
  have frontFewer := unmet_cons_le key front met (key item)
  have backFewer := unmet_cons_le key back met (key item)
  have atItem : decide (key item ∉ key item :: met) = false := by simp
  unfold unmet at *
  rw [List.countP_append, List.countP_append, List.countP_cons, List.countP_cons, atItem]
  simp only [new, not_false_eq_true, decide_true, if_true]
  simp only [Bool.false_eq_true, if_false]
  omega

end SolutionLists.Steps
