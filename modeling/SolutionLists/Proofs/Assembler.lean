import SolutionLists.Assembler

namespace SolutionLists

/-! Which dialect a list of assembler flags asks for. The last flag of its kind decides, but a
list that is built up level by level holds each flag where it was first given. -/

namespace Ordered

/-- Each element with `needle` in it is known already. -/
def Repeats (needle : String) (known elements : List String) : Prop :=
  ∀ other ∈ elements, Text.contains other needle = true → other ∈ known

/-- The element with `needle` in it that comes up last for the first time. -/
def Newest (needle : String) (known elements : List String) (element : String) : Prop :=
  Text.contains element needle = true ∧
    ∃ before after, elements = before ++ element :: after ∧ element ∉ known ++ before ∧
      Repeats needle (known ++ before ++ [element]) after

/-- Once the last element with `needle` in it has come up, no other one follows. -/
def Unbroken (needle : String) (list : List String) : Prop :=
  ∀ element ∈ lastContaining list needle, ∀ other ∈ list.dropWhile (· ≠ element),
    Text.contains other needle = true → other = element

variable {needle element : String} {list known elements : List String}

theorem contains_of_lastContaining (last : lastContaining list needle = some element) :
    Text.contains element needle = true := by
  have found := List.find?_some last
  exact found

theorem mem_of_lastContaining (last : lastContaining list needle = some element) :
    element ∈ list :=
  List.mem_reverse.mp (List.mem_of_find?_eq_some last)

theorem lastContaining_eq_none :
    lastContaining list needle = none ↔ ∀ other ∈ list, Text.contains other needle = false := by
  simp [lastContaining]

theorem lastContaining_append (first second : List String) :
    lastContaining (first ++ second) needle =
      (lastContaining second needle).or (lastContaining first needle) := by
  rw [lastContaining, List.reverse_append, List.find?_append]
  rfl

theorem lastContaining_concat_of_contains (found : Text.contains element needle = true) :
    lastContaining (list ++ [element]) needle = some element := by
  rw [lastContaining_append, lastContaining, List.reverse_singleton, List.find?_singleton,
    if_pos found, Option.some_or]

theorem lastContaining_of_same {before after : List String}
    (found : Text.contains element needle = true)
    (same : ∀ other ∈ after, Text.contains other needle = true → other = element) :
    lastContaining (before ++ element :: after) needle = some element := by
  rw [List.append_cons, lastContaining_append, lastContaining_concat_of_contains found]
  cases last : lastContaining after needle with
  | none => rfl
  | some other =>
      rw [Option.some_or, same other (mem_of_lastContaining last) (contains_of_lastContaining last)]

/-! ## Elements that are placed once -/

theorem lastContaining_insertLast (known : Text.contains element needle = true → element ∈ list) :
    lastContaining (insertLast list element) needle = lastContaining list needle := by
  by_cases present : element ∈ list
  · rw [insertLast_of_mem present]
  · have other : Text.contains element needle = false :=
      Bool.eq_false_iff.mpr fun found => present (known found)
    have none : lastContaining [element] needle = none :=
      lastContaining_eq_none.mpr fun _ member => List.mem_singleton.mp member ▸ other
    rw [insertLast, if_neg present, lastContaining_append, none, Option.none_or]

theorem lastContaining_append_of_repeats (repeats : Repeats needle known elements) :
    lastContaining (append known elements) needle = lastContaining known needle := by
  induction elements generalizing known with
  | nil => rfl
  | cons head tail induction =>
      have later : Repeats needle (insertLast known head) tail := by
        intro other member found
        exact mem_insertLast.mpr (.inl (repeats other (List.mem_cons_of_mem _ member) found))
      rw [append_cons, induction later]
      exact lastContaining_insertLast (repeats head List.mem_cons_self)

theorem lastContaining_append_of_newest (newest : Newest needle known elements element) :
    lastContaining (append known elements) needle = some element := by
  rcases newest with ⟨found, before, after, rfl, fresh, repeats⟩
  have absent : element ∉ append known before := by
    rw [mem_append, ← List.mem_append]
    exact fresh
  rw [append_append, append_cons, insertLast, if_neg absent, lastContaining_append_of_repeats]
  · exact lastContaining_concat_of_contains found
  · intro other member matched
    have placed := repeats other member matched
    simpa [or_assoc] using placed

theorem repeats_or_newest (needle : String) (known elements : List String) :
    Repeats needle known elements ∨ ∃ element, Newest needle known elements element := by
  induction elements generalizing known with
  | nil => exact .inl fun _ member => nomatch member
  | cons head tail induction =>
      rcases induction (known ++ [head]) with repeats | ⟨element, newest⟩
      · by_cases fresh : Text.contains head needle = true ∧ head ∉ known
        · refine .inr ⟨head, fresh.1, [], tail, rfl, ?_, ?_⟩
          · simpa using fresh.2
          · simpa using repeats
        · -- The head is known or of another kind, so it does not matter to the rest.
          have stale : Text.contains head needle = true → head ∈ known := fun found =>
            Decidable.byContradiction fun absent => fresh ⟨found, absent⟩
          refine .inl ?_
          intro other member found
          rcases List.mem_cons.mp member with rfl | inside
          · exact stale found
          · rcases List.mem_append.mp (repeats other inside found) with present | single
            · exact present
            · rw [List.mem_singleton.mp single] at found ⊢
              exact stale found
      · rcases newest with ⟨found, before, after, rfl, unseen, repeats⟩
        refine .inr ⟨element, found, head :: before, after, rfl, ?_, ?_⟩
        · simpa using unseen
        · simpa using repeats

/-- In a list where elements are placed once, the one that came up last for the first time is
the last one of its kind. -/
theorem lastContaining_append_eq_some :
    lastContaining (append known elements) needle = some element ↔
      Newest needle known elements element ∨
        (Repeats needle known elements ∧ lastContaining known needle = some element) := by
  constructor
  · intro last
    rcases repeats_or_newest needle known elements with repeats | ⟨other, newest⟩
    · rw [lastContaining_append_of_repeats repeats] at last
      exact .inr ⟨repeats, last⟩
    · rw [lastContaining_append_of_newest newest] at last
      cases last
      exact .inl newest
  · rintro (newest | ⟨repeats, last⟩)
    · exact lastContaining_append_of_newest newest
    · rw [lastContaining_append_of_repeats repeats, last]

theorem dropWhile_ne_first {before after : List String} (absent : element ∉ before) :
    (before ++ element :: after).dropWhile (· ≠ element) = element :: after := by
  rw [List.dropWhile_append_of_pos, List.dropWhile_cons_of_neg]
  · simp
  · intro other member
    exact decide_eq_true fun same => absent (same ▸ member)

/-- Where the last element of a kind is not followed by others once it has come up, it does not
matter that repetitions are left out. -/
theorem lastContaining_append_of_unbroken (unbroken : Unbroken needle (known ++ elements)) :
    lastContaining (append known elements) needle = lastContaining (known ++ elements) needle := by
  cases last : lastContaining (known ++ elements) needle with
  | none =>
      rw [lastContaining_eq_none] at last ⊢
      intro other member
      exact last other (List.mem_append.mpr (mem_append.mp member))
  | some element =>
      have found := contains_of_lastContaining last
      have follows := unbroken element last
      by_cases present : element ∈ known
      · rcases List.eq_append_cons_of_mem present with ⟨before, after, rfl, absent⟩
        rw [List.append_assoc, List.cons_append, dropWhile_ne_first absent] at follows
        rw [lastContaining_append_of_repeats, lastContaining_of_same found]
        · intro other member
          exact follows other (List.mem_cons_of_mem _ (List.mem_append_left _ member))
        · intro other member matched
          have same := follows other (List.mem_cons_of_mem _ (List.mem_append_right _ member))
          rw [same matched]
          exact present
      · have below := (List.mem_append.mp (mem_of_lastContaining last)).resolve_left present
        rcases List.eq_append_cons_of_mem below with ⟨before, after, rfl, absent⟩
        have fresh : element ∉ known ++ before := by
          rw [List.mem_append]
          exact not_or.mpr ⟨present, absent⟩
        rw [← List.append_assoc, dropWhile_ne_first fresh] at follows
        refine lastContaining_append_of_newest ⟨found, before, after, rfl, fresh, ?_⟩
        intro other member matched
        rw [follows other (List.mem_cons_of_mem _ member) matched]
        exact List.mem_append_right _ List.mem_cons_self

end Ordered

namespace AssemblerDialect

/-- Flags that have the integrated assembler read GNU syntax. -/
def AsksForGnu (flag : String) : Prop :=
  flag = "-masm=gnu" ∨ flag = "-masm=auto"

theorem ofFile?_arm_compiler {file : String} (unread : Text.endsWith file ".S" = false)
    (flags : List String) :
    ∃ dialect, ofFile? "AC6" file flags = some dialect ∧
      (dialect = gnu ↔
        ∃ flag, Ordered.lastContaining flags "-masm" = some flag ∧ AsksForGnu flag) := by
  unfold ofFile?
  rw [if_neg (Bool.eq_false_iff.mp unread), if_neg (by decide), if_pos rfl]
  cases Ordered.lastContaining flags "-masm" with
  | none => exact ⟨arm, rfl, by simp⟩
  | some flag =>
      by_cases asks : flag = "-masm=gnu" ∨ flag = "-masm=auto"
      · exact ⟨gnu, if_pos asks, by simpa [AsksForGnu] using asks⟩
      · exact ⟨arm, if_neg asks, by simpa [AsksForGnu] using asks⟩

end AssemblerDialect

end SolutionLists
