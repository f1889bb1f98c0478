import Mathlib.Logic.Relation
import SolutionLists.Path.Anchor
import SolutionLists.Proofs.Path.Lexical

namespace SolutionLists.Path

/-! Texts that name the same directory as far as texts can tell. Slashes may lean either
way; segments that lead nowhere may be left out, and so may a name with the ascent behind
it. The value of a variable at the start is not looked into. -/

/-- Where a path starts. -/
inductive Start where
  | here
  | root
  /-- At the value of a variable, in the segment that refers to it. -/
  | reference (segment : Segment)
deriving DecidableEq, Repr

def segments (path : String) : List Segment :=
  (forwardSlashes path).toList.splitOn '/'

/-- Where a path starts, and the segments that lead on from there. -/
def route (path : String) : Start × List Segment :=
  match segments path with
  | [] => (.here, [])
  | first :: rest =>
      if isRooted (forwardSlashes path) then (.root, rest)
      else if isReference (forwardSlashes path) then (.reference first, rest)
      else (.here, first :: rest)

/-- One step that leaves out what leads nowhere. -/
inductive Drops : List Segment → List Segment → Prop
  | empty (before after : List Segment) : Drops (before ++ [] :: after) (before ++ after)
  | current (before after : List Segment) : Drops (before ++ ['.'] :: after) (before ++ after)
  | pair (before after : List Segment) (name : Segment)
      (isName : name ∉ [[], ['.'], ascend]) :
      Drops (before ++ name :: ascend :: after) (before ++ after)

def SameDirectory (first second : String) : Prop :=
  (route first).1 = (route second).1 ∧
    Relation.EqvGen Drops (route first).2 (route second).2

/-! ## What is left out makes no difference -/

theorem Drops.append_left {first second : List Segment} (drops : Drops first second)
    (start : List Segment) : Drops (start ++ first) (start ++ second) := by
  cases drops with
  | empty before after => simpa using Drops.empty (start ++ before) after
  | current before after => simpa using Drops.current (start ++ before) after
  | pair before after name isName =>
      simpa using Drops.pair (start ++ before) after name isName

theorem Drops.append_right {first second : List Segment} (drops : Drops first second)
    (rest : List Segment) : Drops (first ++ rest) (second ++ rest) := by
  cases drops with
  | empty before after => simpa using Drops.empty before (after ++ rest)
  | current before after => simpa using Drops.current before (after ++ rest)
  | pair before after name isName => simpa using Drops.pair before (after ++ rest) name isName

theorem eqvGen_map {around : List Segment → List Segment}
    (step : ∀ {first second}, Drops first second → Drops (around first) (around second))
    {first second : List Segment} (same : Relation.EqvGen Drops first second) :
    Relation.EqvGen Drops (around first) (around second) := by
  induction same with
  | rel first second drops => exact .rel _ _ (step drops)
  | refl first => exact .refl _
  | symm first second _ induction => exact .symm _ _ induction
  | trans first second third _ _ left right => exact .trans _ _ _ left right

theorem eqvGen_append_left {first second : List Segment}
    (same : Relation.EqvGen Drops first second) (start : List Segment) :
    Relation.EqvGen Drops (start ++ first) (start ++ second) :=
  eqvGen_map (fun drops => drops.append_left start) same

theorem eqvGen_append_right {first second : List Segment}
    (same : Relation.EqvGen Drops first second) (rest : List Segment) :
    Relation.EqvGen Drops (first ++ rest) (second ++ rest) :=
  eqvGen_map (fun drops => drops.append_right rest) same

theorem Drops.foldl_pushSegment {first second : List Segment} (drops : Drops first second)
    (rooted : Bool) (kept : List Segment) :
    first.foldl (pushSegment rooted) kept = second.foldl (pushSegment rooted) kept := by
  cases drops with
  | empty before after => simp [pushSegment]
  | current before after => simp [pushSegment]
  | pair before after name isName =>
      have notAscent : name ≠ ascend := fun same => isName (by simp [same])
      rw [List.foldl_append, List.foldl_append, List.foldl_cons, List.foldl_cons,
        pushSegment_name rooted _ isName, pushSegment_ascend rooted _ notAscent]

theorem foldl_pushSegment_congr {first second : List Segment}
    (same : Relation.EqvGen Drops first second) (rooted : Bool) (kept : List Segment) :
    first.foldl (pushSegment rooted) kept = second.foldl (pushSegment rooted) kept := by
  induction same with
  | rel first second drops => exact drops.foldl_pushSegment rooted kept
  | refl first => rfl
  | symm first second _ induction => exact induction.symm
  | trans first second third _ _ left right => exact left.trans right

theorem clean_congr {first second : String} (rooted : isRooted first = isRooted second)
    (same : Relation.EqvGen Drops (first.toList.splitOn '/') (second.toList.splitOn '/')) :
    clean first = clean second := by
  unfold clean cleanSegments
  rw [rooted, foldl_pushSegment_congr same]

/-! ## Cleaning leaves out what leads nowhere -/

theorem drops_pushSegment {kept : List Segment} (stay : ∀ other ∈ kept, Stays other)
    (segment : Segment) (after : List Segment) :
    Relation.EqvGen Drops (kept.reverse ++ segment :: after)
      ((pushSegment false kept segment).reverse ++ after) := by
  have put : ∀ added : Segment,
      kept.reverse ++ added :: after = (added :: kept).reverse ++ after := by simp
  unfold pushSegment
  split
  case isTrue nothing =>
    rcases nothing with rfl | rfl
    · exact .rel _ _ (.empty kept.reverse after)
    · exact .rel _ _ (.current kept.reverse after)
  case isFalse =>
    split
    case isTrue ascends =>
      subst ascends
      rw [put]
      cases kept with
      | nil => exact .refl _
      | cons newest older =>
          dsimp only
          split
          case isTrue name =>
            have stays := stay newest List.mem_cons_self
            have ascent : (ascend :: newest :: older).reverse ++ after =
                older.reverse ++ newest :: ascend :: after := by simp
            rw [ascent]
            refine .rel _ _ (.pair older.reverse after newest ?_)
            simp [stays.1, stays.2, name]
          case isFalse => exact .refl _
    case isFalse =>
      rw [put]
      exact .refl _

theorem drops_foldl_pushSegment {kept : List Segment} (stay : ∀ other ∈ kept, Stays other)
    (segments : List Segment) :
    Relation.EqvGen Drops (kept.reverse ++ segments)
      (segments.foldl (pushSegment false) kept).reverse := by
  induction segments generalizing kept with
  | nil =>
      rw [List.append_nil]
      exact .refl _
  | cons segment after induction =>
      have here := drops_pushSegment stay segment after
      have pushed : ∀ other ∈ pushSegment false kept segment, Stays other := by
        intro other member
        rcases mem_pushSegment member with before | ⟨rfl, stays⟩
        · exact stay other before
        · exact stays
      exact .trans _ _ _ here (induction pushed)

theorem drops_clean {path : String} (relative : isRooted path = false) :
    Relation.EqvGen Drops (path.toList.splitOn '/') ((clean path).toList.splitOn '/') := by
  have kept : Relation.EqvGen Drops (path.toList.splitOn '/') (cleanSegments path) := by
    unfold cleanSegments
    rw [relative]
    exact drops_foldl_pushSegment (fun _ nothing => absurd nothing List.not_mem_nil) _
  rw [clean_of_relative relative]
  split
  case isTrue nothing =>
    rw [nothing] at kept
    exact .trans _ _ _ kept (.symm _ _ (.rel _ _ (.current [] [])))
  case isFalse something =>
    rw [String.toList_ofList,
      List.splitOn_intercalate '/' slash_not_mem_cleanSegments something]
    exact kept

/-! ## Where a path starts -/

def Start.segments : Start → List Segment
  | here => []
  | root => [[]]
  | reference segment => [segment]

theorem segments_eq (path : String) :
    segments path = (route path).1.segments ++ (route path).2 := by
  unfold route
  cases split : segments path with
  | nil => rfl
  | cons first rest =>
      dsimp only
      split
      case isTrue rooted =>
        have slash : ∃ tail, (forwardSlashes path).toList = '/' :: tail := by
          simpa [isRooted, List.head?_eq_some_iff] using rooted
        rcases slash with ⟨tail, chars⟩
        rw [segments, chars, List.splitOn_cons_eq_if_modifyHead,
          if_pos (beq_self_eq_true '/')] at split
        cases split
        rfl
      case isFalse => split <;> rfl

theorem isRooted_iff (path : String) :
    isRooted (forwardSlashes path) = true ↔ (route path).1 = .root := by
  unfold route
  cases split : segments path with
  | nil => exact absurd split (List.splitOn_ne_nil _ _)
  | cons first rest =>
      dsimp only
      split
      case isTrue rooted => simp [rooted]
      case isFalse relative => split <;> simp [relative]

namespace SameDirectory

variable {first second : String}

theorem segments (same : SameDirectory first second) :
    Relation.EqvGen Drops (Path.segments first) (Path.segments second) := by
  rw [segments_eq first, segments_eq second, same.1]
  exact eqvGen_append_left same.2 _

theorem isRooted (same : SameDirectory first second) :
    Path.isRooted (forwardSlashes first) = Path.isRooted (forwardSlashes second) := by
  rw [Bool.eq_iff_iff, isRooted_iff, isRooted_iff, same.1]

theorem clean (same : SameDirectory first second) :
    Path.clean (forwardSlashes first) = Path.clean (forwardSlashes second) :=
  clean_congr same.isRooted same.segments

end SameDirectory

/-! ## Paths from the directory of a context -/

/-- A path whose text stays as it is when it is cleaned. -/
def SpelledClean (path : String) : Prop :=
  clean (forwardSlashes path) = forwardSlashes path

variable {base path other : String}

theorem anchor_of_anchored (anchored : isAnchored (forwardSlashes path) = true) :
    anchor base path = forwardSlashes path :=
  if_pos anchored

theorem isRooted_of_not_anchored (free : isAnchored path = false) : isRooted path = false := by
  rw [isAnchored, Bool.or_eq_false_iff] at free
  refine isRooted_eq_false.mpr fun first => ?_
  rcases List.head?_eq_some_iff.mp first with ⟨rest, chars⟩
  simp [isAbsolute, chars] at free

theorem clean_join_congr (relative : isRooted path = false) (otherRelative : isRooted other = false)
    (same : Relation.EqvGen Drops (path.toList.splitOn '/') (other.toList.splitOn '/')) :
    clean (if base = "" then path else base ++ "/" ++ path) =
      clean (if base = "" then other else base ++ "/" ++ other) := by
  split
  case isTrue => exact clean_congr (relative.trans otherRelative.symm) same
  case isFalse inside =>
    apply clean_congr
    · rw [isRooted_join inside, isRooted_join inside]
    · rw [splitOn_join, splitOn_join]
      exact eqvGen_append_left same _

theorem anchor_congr (free : isAnchored (forwardSlashes path) = false)
    (otherFree : isAnchored (forwardSlashes other) = false)
    (same : Relation.EqvGen Drops (segments path) (segments other)) :
    anchor base path = anchor base other := by
  unfold anchor
  dsimp only
  rw [free, otherFree, clean_join_congr (isRooted_of_not_anchored free)
    (isRooted_of_not_anchored otherFree) same]
  rfl

variable (base) in
/-- A path of a context is the same directory with and without cleaning it first, unless
one of the texts is anchored. -/
theorem anchor_clean_of_free (same : SameDirectory path other) (unmixed : Unmixed path)
    (free : isAnchored (forwardSlashes (clean path)) = false)
    (otherFree : isAnchored (forwardSlashes other) = false) :
    anchor base (clean path) = anchor base other := by
  have relative : isRooted (forwardSlashes path) = false := by
    rw [same.isRooted]
    exact isRooted_of_not_anchored otherFree
  refine anchor_congr free otherFree (.trans _ _ _ ?_ same.segments)
  unfold segments
  rcases forwardSlashes_clean unmixed with cleaned | kept
  · rw [cleaned]
    exact .symm _ _ (drops_clean relative)
  · rw [kept]
    exact .refl _

variable (base) in
theorem anchor_clean_of_spelled (same : SameDirectory path other) (unmixed : Unmixed path)
    (spelled : '\\' ∈ path.toList → SpelledClean path) (otherSpelled : SpelledClean other) :
    anchor base (clean path) = anchor base other := by
  have texts : forwardSlashes (clean path) = forwardSlashes other := by
    have cleaned : clean (forwardSlashes path) = forwardSlashes other :=
      same.clean.trans otherSpelled
    by_cases plain : '\\' ∈ path.toList
    · have single : '/' ∉ path.toList := unmixed.resolve_left fun absent => absent plain
      have something : path ≠ "" := by
        rintro rfl
        cases plain
      rw [clean_of_single single something, ← spelled plain, cleaned]
    · rw [forwardSlashes_of_not_mem (not_mem_clean plain), ← cleaned,
        forwardSlashes_of_not_mem plain]
  unfold anchor
  rw [texts]

theorem anchor_clean_iff_of_anchored (same : SameDirectory path other)
    (plain : '\\' ∉ path.toList) (anchored : isAnchored (clean path) = true)
    (otherAnchored : isAnchored (forwardSlashes other) = true) :
    anchor base (clean path) = anchor base other ↔ SpelledClean other := by
  have cleaned : forwardSlashes (clean path) = clean (forwardSlashes other) := by
    rw [forwardSlashes_of_not_mem (not_mem_clean plain), ← same.clean,
      forwardSlashes_of_not_mem plain]
  rw [anchor_of_anchored otherAnchored, anchor_of_anchored, cleaned, SpelledClean]
  rw [forwardSlashes_of_not_mem (not_mem_clean plain)]
  exact anchored

end SolutionLists.Path
