import SolutionLists.Ordered

namespace SolutionLists.Ordered

/-! What lists of elements that are placed once come to: the elements in the order in which
they are first met. -/

variable {α : Type} [DecidableEq α]

theorem nodup_insertFirst {list : List α} (nodup : list.Nodup) (element : α) :
    (insertFirst list element).Nodup := by
  unfold insertFirst
  split
  case isTrue => exact nodup
  case isFalse absent => exact List.nodup_cons.mpr ⟨absent, nodup⟩

theorem append_eq (list elements : List α) :
    append list elements = list ++ (elements.filter (· ∉ list)).eraseDups := by
  induction elements generalizing list with
  | nil => simp
  | cons head tail induction =>
      rw [append_cons, induction]
      by_cases present : head ∈ list
      · rw [insertLast_of_mem present, List.filter_cons_of_neg (by simpa using present)]
      · have later : (tail.filter (· ∉ list ++ [head])) =
            (tail.filter (· ∉ list)).filter fun element => !element == head := by
          rw [List.filter_filter]
          apply List.filter_congr
          intro element _
          rw [Bool.eq_iff_iff]
          simp [and_comm]
        rw [insertLast, if_neg present, later, List.append_assoc,
          List.filter_cons_of_pos (by simpa using present), List.eraseDups_cons]
        rfl

theorem nodup_append_iff {list elements : List α} :
    (append list elements).Nodup ↔ list.Nodup := by
  constructor
  · intro nodup
    rw [append_eq] at nodup
    exact (List.sublist_append_left _ _).nodup nodup
  · intro nodup
    exact nodup_append nodup elements

theorem append_nil_left (elements : List α) : append [] elements = elements.eraseDups := by
  rw [append_eq, List.nil_append, List.filter_eq_self.mpr]
  simp

theorem nodup_eraseDups (elements : List α) : elements.eraseDups.Nodup := by
  rw [← append_nil_left]
  exact nodup_append List.nodup_nil elements

theorem perm_append {list elements order : List α} (same : order.Perm elements) :
    (append list order).Perm (append list elements) := by
  rw [append_eq, append_eq]
  apply List.Perm.append_left
  apply (List.perm_ext_iff_of_nodup (nodup_eraseDups _) (nodup_eraseDups _)).mpr
  intro element
  rw [List.mem_eraseDups, List.mem_eraseDups]
  exact (same.filter _).mem_iff

end SolutionLists.Ordered
