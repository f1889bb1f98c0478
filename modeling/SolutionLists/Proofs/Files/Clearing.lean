import SolutionLists.Proofs.Files.Growth

namespace SolutionLists.FileTree

/-! Trees from which directories are cleared away. A directory goes with all that lies below
it, and everything else stays. -/

variable {tree : FileTree} {place outer : Place} {path text : String}

/-! ## Entries -/

theorem lookup_filter (entries : List (Place × FileEntry)) (stays : Place → Bool)
    (place : Place) :
    (entries.filter fun (other, _) => stays other).lookup place =
      if stays place then entries.lookup place else none := by
  induction entries with
  | nil => simp
  | cons head rest induction =>
      rcases head with ⟨key, entry⟩
      rw [List.filter_cons, List.lookup_cons]
      by_cases here : place = key
      · subst here
        by_cases kept : stays place = true
        · simp [kept]
        · simpa [kept] using induction
      · have test : (place == key) = false := beq_eq_false_iff_ne.mpr here
        by_cases kept : stays key = true
        · simpa [kept, List.lookup_cons, test] using induction
        · simpa [kept, test] using induction

theorem find_empty (outer place : Place) : (tree.empty outer).find? place =
    if place = outer ∨ isWithin outer place = false then tree.find? place else none := by
  cases place with
  | nil =>
      have stays : ([] : Place) = outer ∨ isWithin outer [] = false := by
        cases outer <;> simp [isWithin]
      rw [if_pos stays]
      rfl
  | cons name above =>
      change List.lookup _ (tree.entries.filter _) = ite _ (List.lookup _ tree.entries) _
      rw [lookup_filter tree.entries fun other => decide (other = outer) || !isWithin outer other]
      simp

theorem find_erase (below : place ≠ []) : (tree.erase outer).find? place =
    if isWithin outer place then none else tree.find? place := by
  rw [find_of_ne_root below, find_of_ne_root below]
  change List.lookup _ (tree.entries.filter _) = _
  rw [lookup_filter tree.entries fun other => !isWithin outer other]
  cases isWithin outer place <;> rfl

theorem isWithin_cons {name : String} : isWithin outer (name :: place) = true ↔
    outer = name :: place ∨ isWithin outer place = true := by
  unfold isWithin
  rw [List.isSuffixOf_iff_suffix, List.isSuffixOf_iff_suffix, List.suffix_cons_iff]

/-! ## One directory -/

theorem isDirectory_iff : tree.isDirectory path = true ↔
    ∃ place, tree.look path = .ok (place, .directory) := by
  unfold isDirectory
  split
  case h_1 place found => simp [found]
  case h_2 other => simpa using other

theorem has_of_isDirectory (directory : tree.isDirectory path = true) : tree.has path = true := by
  rcases isDirectory_iff.mp directory with ⟨place, found⟩
  unfold has
  rw [found]
  rfl

theorem placeOf_of_look {entry : FileEntry} (found : tree.look path = .ok (place, entry)) :
    place = tree.placeOf path :=
  (walk_eq_ok.mp (look_eq_ok.mp found).1).2.2

theorem removeDirectory_of_isDirectory (directory : tree.isDirectory path = true) :
    let emptied := tree.empty (tree.placeOf path)
    (tree.removeDirectory path).tree = emptied ∨
      (tree.removeDirectory path).tree = emptied.erase (tree.placeOf path) := by
  intro emptied
  rcases isDirectory_iff.mp directory with ⟨place, found⟩
  have here := placeOf_of_look found
  unfold removeDirectory
  rw [found, here]
  dsimp only
  split
  case isTrue => exact .inl rfl
  case isFalse =>
    split
    case isTrue => exact .inl rfl
    case isFalse =>
      split
      case h_1 again entry reached =>
        -- It is reached by the same way as before.
        have same : again = emptied.placeOf path := placeOf_of_look reached
        exact .inr (by rw [same]; rfl)
      case h_2 => exact .inl rfl

theorem removeDirectory_of_not (other : tree.isDirectory path = false) :
    (tree.removeDirectory path).tree = tree := by
  unfold removeDirectory
  split
  case h_1 => rfl
  case h_2 => rfl
  case h_3 place found =>
    rw [isDirectory_iff.mpr ⟨place, found⟩] at other
    cases other

/-- A file goes with its directory, or with a directory above that one, and stays otherwise. -/
theorem find_removeDirectory (path : String) (held : tree.find? place = some (.file text)) :
    (tree.removeDirectory path).tree.find? place =
      if tree.isDirectory path = true ∧ isWithin (tree.placeOf path) place.tail = true then none
      else some (.file text) := by
  cases directory : tree.isDirectory path with
  | false => rw [removeDirectory_of_not directory, held]; rfl
  | true =>
      rcases isDirectory_iff.mp directory with ⟨reached, found⟩
      have there := (look_eq_ok.mp found).2
      rw [placeOf_of_look found] at there
      have apart : place ≠ tree.placeOf path := by
        rintro rfl
        rw [held] at there
        cases there
      cases place with
      | nil => cases held
      | cons name above =>
          have within : isWithin (tree.placeOf path) (name :: above) =
              isWithin (tree.placeOf path) above :=
            Bool.eq_iff_iff.mpr (isWithin_cons.trans (or_iff_right apart.symm))
          have emptied : (tree.empty (tree.placeOf path)).find? (name :: above) =
              if isWithin (tree.placeOf path) above = true then none else some (.file text) := by
            rw [find_empty, within, held]
            simp only [apart, false_or]
            cases isWithin (tree.placeOf path) above <;> rfl
          simp only [true_and, List.tail_cons]
          rcases removeDirectory_of_isDirectory directory with only | erased
          · rw [only, emptied]
          · rw [erased, find_erase (List.cons_ne_nil name above), emptied, within]
            split <;> rfl

theorem find_removeDirectory_of_none (absent : tree.find? place = none) :
    (tree.removeDirectory path).tree.find? place = none := by
  have below : place ≠ [] := by
    rintro rfl
    cases absent
  cases directory : tree.isDirectory path with
  | false => rw [removeDirectory_of_not directory, absent]
  | true =>
      have emptied : (tree.empty (tree.placeOf path)).find? place = none := by
        rw [find_empty, absent, ite_self]
      rcases removeDirectory_of_isDirectory directory with only | erased
      · rw [only, emptied]
      · rw [erased, find_erase below, emptied, ite_self]

theorem workingDirectory_removeDirectory :
    (tree.removeDirectory path).tree.workingDirectory = tree.workingDirectory := by
  cases directory : tree.isDirectory path with
  | false => rw [removeDirectory_of_not directory]
  | true =>
      rcases removeDirectory_of_isDirectory directory with emptied | erased
      · rw [emptied]; rfl
      · rw [erased]; rfl

theorem clearDirectory_tree :
    (tree.clearDirectory path).tree = (tree.removeDirectory path).tree := by
  unfold clearDirectory
  split
  case isTrue => rfl
  case isFalse absent =>
    refine (removeDirectory_of_not (Bool.eq_false_iff.mpr fun directory => ?_)).symm
    exact absent (has_of_isDirectory directory)

theorem placeOf_clearDirectory (other : String) :
    (tree.clearDirectory path).tree.placeOf other = tree.placeOf other := by
  unfold placeOf startOf
  rw [clearDirectory_tree, workingDirectory_removeDirectory]

/-! ## One directory after the other -/

variable {targets rest : List String}

theorem clearAll_of_ok (passed : (tree.clearDirectory path).result = .ok ()) :
    (tree.clearAll (path :: rest)).tree = ((tree.clearDirectory path).tree.clearAll rest).tree ∧
      (tree.clearAll (path :: rest)).failure =
        ((tree.clearDirectory path).tree.clearAll rest).failure := by
  rw [clearAll]
  split
  case isTrue there =>
    dsimp only
    rw [passed]
    exact ⟨rfl, rfl⟩
  case isFalse absent =>
    have same : (tree.clearDirectory path).tree = tree := by
      unfold clearDirectory
      rw [if_neg absent]
    rw [same]
    exact ⟨rfl, rfl⟩

theorem clearAll_of_error {failure : Failure}
    (failed : (tree.clearDirectory path).result = .error failure) :
    (tree.clearAll (path :: rest)).tree = (tree.clearDirectory path).tree ∧
      (tree.clearAll (path :: rest)).failure = some failure := by
  have there : tree.has path = true := by
    unfold clearDirectory at failed
    split at failed
    case isTrue there => exact there
    case isFalse => cases failed
  rw [clearAll, if_pos there]
  dsimp only
  rw [failed]
  exact ⟨rfl, rfl⟩

theorem find_clearAll_of_none (absent : tree.find? place = none) :
    (tree.clearAll targets).tree.find? place = none := by
  induction targets generalizing tree with
  | nil => exact absent
  | cons path rest induction =>
      have first : (tree.clearDirectory path).tree.find? place = none := by
        rw [clearDirectory_tree]
        exact find_removeDirectory_of_none absent
      cases result : (tree.clearDirectory path).result with
      | error failure => rw [(clearAll_of_error result).1, first]
      | ok _ =>
          rw [(clearAll_of_ok result).1]
          exact induction first

/-- Whether clearing gets to a directory that is the place or lies above it: its turn comes,
and it is there then. -/
def ClearsAround (tree : FileTree) (targets : List String) (place : Place) : Prop :=
  ∃ earlier target later, targets = earlier ++ target :: later ∧
    (tree.clearAll earlier).failure = none ∧
    (tree.clearAll earlier).tree.isDirectory target = true ∧
    isWithin (tree.placeOf target) place = true

theorem not_clearsAround
    (apart : ∀ target ∈ targets, isWithin (tree.placeOf target) place = false) :
    ¬ tree.ClearsAround targets place := by
  rintro ⟨earlier, target, later, rfl, -, -, within⟩
  rw [apart target (by simp)] at within
  cases within

theorem clearsAround_cons : tree.ClearsAround (path :: rest) place ↔
    (tree.isDirectory path = true ∧ isWithin (tree.placeOf path) place = true) ∨
      ((tree.clearDirectory path).result = .ok () ∧
        (tree.clearDirectory path).tree.ClearsAround rest place) := by
  constructor
  · rintro ⟨earlier, target, later, split, passed, directory, within⟩
    cases earlier with
    | nil =>
        cases split
        exact .inl ⟨directory, within⟩
    | cons first others =>
        cases split
        cases result : (tree.clearDirectory path).result with
        | error failure =>
            rw [(clearAll_of_error result).2] at passed
            cases passed
        | ok _ =>
            rw [(clearAll_of_ok result).2] at passed
            rw [(clearAll_of_ok result).1] at directory
            rw [← placeOf_clearDirectory] at within
            exact .inr ⟨rfl, others, target, later, rfl, passed, directory, within⟩
  · rintro (⟨directory, within⟩ | ⟨result, earlier, target, later, rfl, passed, directory, within⟩)
    · exact ⟨[], path, rest, rfl, rfl, directory, within⟩
    · rw [← (clearAll_of_ok result).2] at passed
      rw [← (clearAll_of_ok result).1] at directory
      rw [placeOf_clearDirectory] at within
      exact ⟨path :: earlier, target, later, rfl, passed, directory, within⟩

/-- A file is gone once clearing has got to its directory or to one above it, and stays
otherwise. -/
theorem find_clearAll (targets : List String) (held : tree.find? place = some (.file text)) :
    (tree.ClearsAround targets place.tail → (tree.clearAll targets).tree.find? place = none) ∧
      (¬ tree.ClearsAround targets place.tail →
        (tree.clearAll targets).tree.find? place = some (.file text)) := by
  induction targets generalizing tree with
  | nil => exact ⟨fun ⟨earlier, _, _, split, _⟩ => by simp at split, fun _ => held⟩
  | cons path rest induction =>
      have first := find_removeDirectory path held
      rw [← clearDirectory_tree] at first
      rw [clearsAround_cons]
      by_cases taken : tree.isDirectory path = true ∧
          isWithin (tree.placeOf path) place.tail = true
      · rw [if_pos taken] at first
        refine ⟨fun _ => ?_, fun spared => absurd (.inl taken) spared⟩
        cases result : (tree.clearDirectory path).result with
        | error failure => rw [(clearAll_of_error result).1, first]
        | ok _ =>
            rw [(clearAll_of_ok result).1]
            exact find_clearAll_of_none first
      · rw [if_neg taken] at first
        rw [or_iff_right taken]
        cases result : (tree.clearDirectory path).result with
        | error failure =>
            rw [(clearAll_of_error result).1]
            exact ⟨fun ⟨passed, _⟩ => (by cases passed), fun _ => first⟩
        | ok _ =>
            rw [(clearAll_of_ok result).1]
            simpa using induction first

end SolutionLists.FileTree
