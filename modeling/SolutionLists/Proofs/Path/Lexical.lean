import SolutionLists.Path.Lexical

namespace SolutionLists.Path

/-! Segments of path texts, and which of them remain once a path is cleaned. -/

/-! ## Texts and their segments -/

theorem mem_of_mem_splitOn {separator : Char} {chars : List Char} {segment : Segment}
    (member : segment ∈ chars.splitOn separator) :
    ∀ char ∈ segment, char ∈ chars ∧ char ≠ separator := by
  induction chars generalizing segment with
  | nil =>
      rw [List.splitOn_nil, List.mem_singleton] at member
      subst member
      simp
  | cons head tail induction =>
      have later : ∀ segment ∈ tail.splitOn separator, ∀ char ∈ segment,
          char ∈ head :: tail ∧ char ≠ separator := fun segment inTail char inside =>
        have found := induction inTail char inside
        ⟨List.mem_cons_of_mem head found.1, found.2⟩
      rw [List.splitOn_cons_eq_if_modifyHead] at member
      split at member
      case isTrue =>
        rcases List.mem_cons.mp member with rfl | inTail
        · simp
        · exact later segment inTail
      case isFalse different =>
        cases split : tail.splitOn separator with
        | nil => exact absurd split (List.splitOn_ne_nil separator tail)
        | cons first rest =>
            rw [split] at member later
            rcases List.mem_cons.mp member with rfl | inTail
            · intro char inside
              rcases List.mem_cons.mp inside with rfl | inFirst
              · exact ⟨List.mem_cons_self, by simpa using different⟩
              · exact later first List.mem_cons_self char inFirst
            · exact later segment (List.mem_cons_of_mem first inTail)

theorem of_mem_intercalate {separator char : Char} {segments : List Segment}
    (member : char ∈ [separator].intercalate segments) :
    char = separator ∨ ∃ segment ∈ segments, char ∈ segment := by
  induction segments with
  | nil => cases member
  | cons head tail induction =>
      cases tail with
      | nil =>
          rw [List.intercalate_singleton] at member
          exact .inr ⟨head, List.mem_cons_self, member⟩
      | cons next rest =>
          rw [List.intercalate_cons_cons] at member
          simp only [List.mem_append, List.mem_singleton] at member
          rcases member with (here | rfl) | later
          · exact .inr ⟨head, List.mem_cons_self, here⟩
          · exact .inl rfl
          · rcases induction later with same | ⟨segment, inside, present⟩
            · exact .inl same
            · exact .inr ⟨segment, List.mem_cons_of_mem head inside, present⟩

theorem isRooted_join {base path : String} (inside : base ≠ "") :
    isRooted (base ++ "/" ++ path) = isRooted base := by
  cases chars : base.toList with
  | nil => exact absurd (String.toList_eq_nil_iff.mp chars) inside
  | cons first rest => simp [isRooted, chars]

theorem isRooted_slash (front rest : String) :
    isRooted (front ++ "/" ++ rest) = isRooted (front ++ "/") := by
  cases chars : front.toList <;> simp [isRooted, chars]

theorem splitOn_join (base path : String) :
    (base ++ "/" ++ path).toList.splitOn '/' =
      base.toList.splitOn '/' ++ path.toList.splitOn '/' := by
  rw [← List.splitOn_append_cons_self, String.toList_append, String.toList_append,
    List.append_assoc]
  rfl

theorem splitOn_slash (front : String) :
    (front ++ "/").toList.splitOn '/' = front.toList.splitOn '/' ++ [[]] := by
  have joined := splitOn_join front ""
  rwa [String.append_empty] at joined

theorem isRooted_iff_splitOn (path : String) :
    isRooted path = true ↔ ∃ next rest, path.toList.splitOn '/' = [] :: next :: rest := by
  unfold isRooted
  cases path.toList with
  | nil => simp [List.splitOn_nil]
  | cons char chars =>
      rw [List.splitOn_cons_eq_if_modifyHead]
      cases split : chars.splitOn '/' with
      | nil => exact absurd split (List.splitOn_ne_nil _ _)
      | cons first others =>
          by_cases slash : char = '/' <;> simp [slash]

theorem isRooted_eq_false {path : String} :
    isRooted path = false ↔ path.toList.head? ≠ some '/' := by
  simp [isRooted]

theorem exists_trailing {α : Type} (passed : α → Bool) (items : List α) : ∃ trailing,
    items = (items.reverse.dropWhile passed).reverse ++ trailing ∧
      ∀ item ∈ trailing, passed item = true := by
  refine ⟨(items.reverse.takeWhile passed).reverse, ?_, ?_⟩
  · rw [← List.reverse_append, List.takeWhile_append_dropWhile, List.reverse_reverse]
  · intro item member
    exact List.all_eq_true.mp List.all_takeWhile item (List.mem_reverse.mp member)

/-! ## Segments that remain -/

theorem pushSegment_name (rooted : Bool) (kept : List Segment) {name : Segment}
    (isName : name ∉ [[], ['.'], ascend]) : pushSegment rooted kept name = name :: kept := by
  simp only [List.mem_cons, List.not_mem_nil, or_false, not_or] at isName
  unfold pushSegment
  rw [if_neg (not_or.mpr ⟨isName.1, isName.2.1⟩), if_neg isName.2.2]

theorem pushSegment_ascend (rooted : Bool) (kept : List Segment) {name : Segment}
    (isName : name ≠ ascend) : pushSegment rooted (name :: kept) ascend = kept := by
  unfold pushSegment
  rw [if_neg (by decide), if_pos rfl]
  exact if_pos isName

/-- A segment that may stay once a path is cleaned. -/
def Stays (segment : Segment) : Prop :=
  segment ≠ [] ∧ segment ≠ ['.']

theorem mem_pushSegment {rooted : Bool} {kept : List Segment} {segment other : Segment}
    (member : other ∈ pushSegment rooted kept segment) :
    other ∈ kept ∨ other = segment ∧ Stays segment := by
  unfold pushSegment at member
  split at member
  case isTrue => exact .inl member
  case isFalse something =>
    have stays : Stays segment := not_or.mp something
    split at member
    case isTrue ascends =>
      subst ascends
      cases kept with
      | nil =>
          cases rooted with
          | true => cases member
          | false => exact .inr ⟨List.mem_singleton.mp member, stays⟩
      | cons newest older =>
          dsimp only at member
          split at member
          · exact .inl (List.mem_cons_of_mem newest member)
          · split at member
            · exact .inl member
            · rcases List.mem_cons.mp member with same | before
              · exact .inr ⟨same, stays⟩
              · exact .inl before
    case isFalse =>
      rcases List.mem_cons.mp member with same | before
      · exact .inr ⟨same, stays⟩
      · exact .inl before

theorem mem_foldl_pushSegment {rooted : Bool} {segments kept : List Segment} {other : Segment}
    (member : other ∈ segments.foldl (pushSegment rooted) kept) :
    other ∈ kept ∨ other ∈ segments ∧ Stays other := by
  induction segments generalizing kept with
  | nil => exact .inl member
  | cons segment rest induction =>
      rcases induction member with pushed | ⟨later, stays⟩
      · rcases mem_pushSegment pushed with before | ⟨rfl, stays⟩
        · exact .inl before
        · exact .inr ⟨List.mem_cons_self, stays⟩
      · exact .inr ⟨List.mem_cons_of_mem segment later, stays⟩

theorem mem_cleanSegments {path : String} {segment : Segment}
    (member : segment ∈ cleanSegments path) :
    segment ∈ path.toList.splitOn '/' ∧ Stays segment := by
  rcases mem_foldl_pushSegment (List.mem_reverse.mp member) with nothing | found
  · cases nothing
  · exact found

theorem slash_not_mem_cleanSegments {path : String} :
    ∀ segment ∈ cleanSegments path, '/' ∉ segment := by
  intro segment member slash
  exact (mem_of_mem_splitOn (mem_cleanSegments member).1 '/' slash).2 rfl

theorem isEmpty_intercalate {segments : List Segment} (stay : ∀ segment ∈ segments, Stays segment) :
    (['/'].intercalate segments).isEmpty = true ↔ segments = [] := by
  rw [List.isEmpty_iff]
  cases segments with
  | nil => simp
  | cons first rest =>
      have stays := (stay first List.mem_cons_self).1
      cases rest with
      | nil => simpa using stays
      | cons next rest => simp [List.intercalate_cons_cons]

theorem clean_of_relative {path : String} (relative : isRooted path = false) :
    clean path =
      if cleanSegments path = [] then "."
      else String.ofList (['/'].intercalate (cleanSegments path)) := by
  have stay : ∀ segment ∈ cleanSegments path, Stays segment :=
    fun _ member => (mem_cleanSegments member).2
  unfold clean
  simp only [relative, Bool.false_eq_true, if_false, isEmpty_intercalate stay]

/-! ## Slashes of one kind -/

def Unmixed (path : String) : Prop :=
  '\\' ∉ path.toList ∨ '/' ∉ path.toList

theorem forwardSlashes_of_not_mem {path : String} (plain : '\\' ∉ path.toList) :
    forwardSlashes path = path := by
  have same : path.toList.map forwardSlash = path.toList := by
    refine (List.map_congr_left fun char member => ?_).trans (List.map_id path.toList)
    refine if_neg fun slash => plain ?_
    rw [← slash]
    exact member
  rw [forwardSlashes, same, String.ofList_toList]

theorem not_mem_clean {path : String} (plain : '\\' ∉ path.toList) :
    '\\' ∉ (clean path).toList := by
  have joined : '\\' ∉ ['/'].intercalate (cleanSegments path) := by
    intro member
    rcases of_mem_intercalate member with same | ⟨segment, inside, present⟩
    · exact absurd same (by decide)
    · exact plain (mem_of_mem_splitOn (mem_cleanSegments inside).1 _ present).1
  unfold clean
  dsimp only
  split
  · simpa using joined
  · split
    · decide
    · simpa using joined

theorem clean_of_single {path : String} (single : '/' ∉ path.toList) (something : path ≠ "") :
    clean path = path := by
  have relative : isRooted path = false :=
    isRooted_eq_false.mpr fun first => single (List.mem_of_mem_head? first)
  have segment : cleanSegments path = (pushSegment false [] path.toList).reverse := by
    rw [cleanSegments, relative, List.splitOn_eq_singleton single]
    rfl
  rw [clean_of_relative relative, segment]
  unfold pushSegment
  split
  case isTrue nothing =>
    rcases nothing with empty | current
    · exact absurd (String.toList_eq_nil_iff.mp empty) something
    · rw [← String.ofList_toList (s := path), current]
      rfl
  case isFalse =>
    split
    case isTrue ascends =>
      rw [← String.ofList_toList (s := path), ascends]
      rfl
    case isFalse => simp

theorem forwardSlashes_clean {path : String} (unmixed : Unmixed path) :
    forwardSlashes (clean path) = clean (forwardSlashes path) ∨
      forwardSlashes (clean path) = forwardSlashes path := by
  rcases unmixed with plain | single
  · left
    rw [forwardSlashes_of_not_mem plain, forwardSlashes_of_not_mem (not_mem_clean plain)]
  · by_cases empty : path = ""
    · left
      subst empty
      decide
    · right
      rw [clean_of_single single empty]

end SolutionLists.Path
