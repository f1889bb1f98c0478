import SolutionLists.Text.Search

namespace SolutionLists.Ordered

/-! Lists whose order is shown in the generated text. Elements are placed once:
an element that is already there is passed over. -/

variable {α : Type} [DecidableEq α]

def insertLast (list : List α) (element : α) : List α :=
  if element ∈ list then list else list ++ [element]

def insertFirst (list : List α) (element : α) : List α :=
  if element ∈ list then list else element :: list

def append (list elements : List α) : List α :=
  elements.foldl insertLast list

/-- Elements go in front one after the other, so the last of them comes first. -/
def prepend (list elements : List α) : List α :=
  elements.foldl insertFirst list

/-- The elements of `second` that `first` holds too, in the order of `second`. -/
def common (first second : List α) : List α :=
  append [] (second.filter (· ∈ first))

def without (list elements : List α) : List α :=
  list.filter (· ∉ elements)

def lastContaining (list : List String) (needle : String) : Option String :=
  list.reverse.find? (Text.contains · needle)

/-! ## Membership and repetition -/

@[simp] theorem append_nil (list : List α) : append list [] = list := rfl

theorem append_cons (list : List α) (head : α) (tail : List α) :
    append list (head :: tail) = append (insertLast list head) tail := rfl

@[simp] theorem mem_insertLast {list : List α} {element value : α} :
    value ∈ insertLast list element ↔ value ∈ list ∨ value = element := by
  unfold insertLast
  split
  case isTrue present =>
    constructor
    · exact Or.inl
    · rintro (member | rfl)
      · exact member
      · exact present
  case isFalse => simp

theorem mem_insertFirst {list : List α} {element value : α} :
    value ∈ insertFirst list element ↔ value ∈ list ∨ value = element := by
  unfold insertFirst
  split
  case isTrue present =>
    constructor
    · exact Or.inl
    · rintro (member | rfl)
      · exact member
      · exact present
  case isFalse => rw [List.mem_cons, or_comm]

@[simp] theorem mem_append {list elements : List α} {value : α} :
    value ∈ append list elements ↔ value ∈ list ∨ value ∈ elements := by
  induction elements generalizing list with
  | nil => simp
  | cons head tail induction => simp [append_cons, induction, or_assoc]

theorem nodup_insertLast {list : List α} (nodup : list.Nodup) (element : α) :
    (insertLast list element).Nodup := by
  unfold insertLast
  split
  case isTrue => exact nodup
  case isFalse absent =>
    exact List.nodup_append.mpr ⟨nodup, by simp, by
      intro value member other single equal
      simp only [List.mem_singleton] at single
      exact absent (single ▸ equal ▸ member)⟩

theorem nodup_append {list : List α} (nodup : list.Nodup) (elements : List α) :
    (append list elements).Nodup := by
  induction elements generalizing list with
  | nil => exact nodup
  | cons head tail induction => exact induction (nodup_insertLast nodup head)

theorem insertLast_of_mem {list : List α} {element : α} (present : element ∈ list) :
    insertLast list element = list :=
  if_pos present

theorem append_append (list first second : List α) :
    append list (first ++ second) = append (append list first) second :=
  List.foldl_append

theorem append_append_left (list start elements : List α) :
    append list (append start elements) = append (append list start) elements := by
  induction elements generalizing start with
  | nil => rfl
  | cons head tail induction =>
      rw [append_cons, append_cons, induction]
      congr 1
      by_cases present : head ∈ start
      · rw [insertLast_of_mem present, insertLast_of_mem (mem_append.mpr (.inr present))]
      · rw [insertLast, if_neg present, append_append]
        rfl

theorem append_of_nodup {list elements : List α} (nodup : (list ++ elements).Nodup) :
    append list elements = list ++ elements := by
  induction elements generalizing list with
  | nil => rw [append_nil, List.append_nil]
  | cons head tail induction =>
      have absent : head ∉ list := fun present =>
        (List.nodup_append.mp nodup).2.2 head present head List.mem_cons_self rfl
      have again : ((list ++ [head]) ++ tail).Nodup := by rwa [List.append_assoc]
      rw [append_cons, insertLast, if_neg absent, induction again, List.append_assoc]
      rfl

theorem foldl_append {β : Type} (list : List α) (parts : β → List α) (values : List β) :
    values.foldl (fun list value => append list (parts value)) list =
      append list (values.flatMap parts) := by
  induction values generalizing list with
  | nil => rfl
  | cons value rest induction =>
      rw [List.foldl_cons, induction, List.flatMap_cons, append_append]

@[simp] theorem mem_common {first second : List α} {value : α} :
    value ∈ common first second ↔ value ∈ first ∧ value ∈ second := by
  simp [common, and_comm]

@[simp] theorem mem_without {list elements : List α} {value : α} :
    value ∈ without list elements ↔ value ∈ list ∧ value ∉ elements := by
  simp [without]

example : append ["one", "two"] ["three", "one"] = ["one", "two", "three"] := by decide
example : prepend ["one"] ["two", "three"] = ["three", "two", "one"] := by decide
example : common ["one", "two"] ["two", "three"] = ["two"] := by decide

end SolutionLists.Ordered
