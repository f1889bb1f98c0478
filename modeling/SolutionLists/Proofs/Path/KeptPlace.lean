import SolutionLists.Proofs.Path.Place

namespace SolutionLists.Path

/-! Cleaning a path leaves the place that it leads to alone, as far as the start of the path
is the same before and after. A drive or a variable is a name like any other to it. -/

/-- Whether a path leads to the same place once it is cleaned: one that is read from somewhere
does not start with a drive or a variable then, and a drive or a variable at the start is not
taken for a name that an ascent takes back; nor is a drive left without its root. -/
def KeepsPlace (path : String) : Prop :=
  let behind := Meaning.ofSegments (path.toList.splitOn '/').tail
  match (place path).origin with
  | .here => (place (clean path)).origin = .here
  | .root => True
  | .drive _ => behind.ascents = 0 ∧ behind.names ≠ []
  | .reference _ => behind.ascents = 0

theorem isRooted_of_first {path : String} {first : Segment} {rest : List Segment}
    (split : path.toList.splitOn '/' = first :: rest) (something : first ≠ []) :
    isRooted path = false := by
  apply Bool.eq_false_iff.mpr
  intro rooted
  rcases (isRooted_iff_splitOn _).mp rooted with ⟨next, others, whole⟩
  rw [split] at whole
  exact something (List.cons.inj whole).1

section Start

variable {path : String} {first : Segment} (isName : first ∉ [[], ['.'], ascend])
include isName

theorem names_of_splitOn_clean {rest : List Segment}
    (split : (clean path).toList.splitOn '/' = first :: rest) :
    cleanSegments path = first :: rest ∧ Meaning.ofSegments rest = ⟨0, rest⟩ := by
  have relative := isRooted_of_first split fun nothing => isName (by simp [nothing])
  have written := splitOn_eq_steps (clean path)
  rw [relative, split, steps_clean, if_neg Bool.false_ne_true, List.nil_append] at written
  have kept : cleanSegments path = first :: rest := by
    split at written
    case isTrue =>
      rw [isRooted_clean] at relative
      rw [relative] at written
      exact absurd (by simp [(List.cons.inj written).1]) isName
    case isFalse => exact written.symm
  refine ⟨kept, ?_⟩
  apply Meaning.ofSegments_names
  intro name member
  rw [cleanSegments_eq, Meaning.segments] at kept
  cases ascents : (meaning path).ascents with
  | zero =>
      rw [ascents, List.replicate_zero, List.nil_append] at kept
      apply mem_names_meaning path
      rw [kept]
      exact List.mem_cons_of_mem first member
  | succ count =>
      rw [ascents, List.replicate_succ, List.cons_append] at kept
      exact absurd (by simp [← (List.cons.inj kept).1]) isName

variable {tail : List Segment} (split : path.toList.splitOn '/' = first :: tail)
include split

theorem meaning_of_first : meaning path = Meaning.through first (Meaning.ofSegments tail) := by
  rw [meaning, isRooted_of_first split fun nothing => isName (by simp [nothing]), split]
  rfl

theorem splitOn_clean_of_level (level : (Meaning.ofSegments tail).ascents = 0) :
    (clean path).toList.splitOn '/' = first :: (Meaning.ofSegments tail).names := by
  have relative := isRooted_of_first split fun nothing => isName (by simp [nothing])
  have kept : cleanSegments path = first :: (Meaning.ofSegments tail).names := by
    rw [cleanSegments_eq, meaning_of_first isName split]
    rcases found : Meaning.ofSegments tail with ⟨ascents, names⟩
    rw [found] at level
    dsimp only at level
    rw [level, Meaning.through_name isName]
    rfl
  rw [splitOn_eq_steps, steps_clean, isRooted_clean, relative, if_neg Bool.false_ne_true,
    List.nil_append, kept, if_neg (List.cons_ne_nil _ _)]

end Start

theorem place_of_rooted {path : String} (rooted : isRooted path = true) :
    place path = ⟨.root, meaning path⟩ := by
  rcases (isRooted_iff_splitOn path).mp rooted with ⟨next, rest, split⟩
  rw [place, meaning, rooted, split]
  rfl

theorem place_of_drive {path : String} {letter : Char}
    (drive : (place path).origin = .drive letter) :
    place path =
      ⟨.drive letter, (Meaning.ofSegments (path.toList.splitOn '/').tail).stopped⟩ := by
  rw [origin_place] at drive
  rw [place, Place.ofSegments, drive]

theorem place_of_reference {path : String} {segment : Segment}
    (reference : (place path).origin = .reference segment) :
    place path =
      ⟨.reference segment, .ofSegments (path.toList.splitOn '/').tail⟩ := by
  rw [origin_place] at reference
  rw [place, Place.ofSegments, reference]

theorem level_of_splitOn_clean {path : String} {first : Segment} {tail rest : List Segment}
    (isName : first ∉ [[], ['.'], ascend]) (split : path.toList.splitOn '/' = first :: tail)
    (cleanSplit : (clean path).toList.splitOn '/' = first :: rest)
    (names : rest = (Meaning.ofSegments tail).names) :
    (Meaning.ofSegments tail).ascents = 0 := by
  have kept := (names_of_splitOn_clean isName cleanSplit).1
  rw [cleanSegments_eq, meaning_of_first isName split] at kept
  rcases found : Meaning.ofSegments tail with ⟨ascents, others⟩
  rw [found] at kept names
  cases ascents with
  | zero => rfl
  | succ count =>
      rw [Meaning.through_name_succ isName, Meaning.segments, names] at kept
      have length := congrArg List.length kept
      simp only [List.length_append, List.length_replicate, List.length_cons] at length
      have one : count = 1 := by omega
      rw [one] at kept
      exact absurd (by simp [← (List.cons.inj kept).1]) isName

theorem place_clean_iff (path : String) : place (clean path) = place path ↔ KeepsPlace path := by
  have starts := Origin.starts_ofSegments (path.toList.splitOn '/')
  have cleanStarts := Origin.starts_ofSegments ((clean path).toList.splitOn '/')
  rw [← origin_place] at starts cleanStarts
  rw [KeepsPlace]
  cases origin : (place path).origin with
  | here =>
      have relative : isRooted path = false := by
        apply Bool.eq_false_iff.mpr
        intro rooted
        rw [place_of_rooted rooted] at origin
        cases origin
      constructor
      · intro same
        exact same ▸ origin
      · intro cleanHere
        rw [place_of_here origin, place_of_here cleanHere, ofSegments_clean, meaning, relative]
        rfl
  | root =>
      rw [origin] at starts
      have rooted := (isRooted_iff_splitOn path).mpr starts
      rw [place_of_rooted rooted, place_of_rooted ((isRooted_clean path).trans rooted),
        meaning_clean]
      exact iff_true_intro rfl
  | drive letter =>
      rw [origin] at starts
      rcases starts with ⟨next, rest, split⟩
      have isName : [letter, ':'] ∉ [[], ['.'], ascend] := by simp [ascend]
      constructor
      · intro same
        have cleanOrigin : (place (clean path)).origin = .drive letter := same ▸ origin
        rw [cleanOrigin] at cleanStarts
        rcases cleanStarts with ⟨cleanNext, cleanRest, cleanSplit⟩
        have way := congrArg (fun place => place.way.names) same
        rw [place_of_drive origin, place_of_drive cleanOrigin, cleanSplit, List.tail_cons,
          (names_of_splitOn_clean isName cleanSplit).2, split, List.tail_cons] at way
        have names : cleanNext :: cleanRest = (Meaning.ofSegments (next :: rest)).names := way
        dsimp only
        rw [split, List.tail_cons, ← names]
        exact ⟨level_of_splitOn_clean isName split cleanSplit names, List.cons_ne_nil _ _⟩
      · intro kept
        dsimp only at kept
        rw [split, List.tail_cons] at kept
        have level := splitOn_clean_of_level isName split kept.1
        have cleanOrigin : (place (clean path)).origin = .drive letter := by
          rw [← origin, origin_place, origin_place, level, split, Origin.ofSegments,
            Origin.ofSegments, List.isEmpty_eq_false_iff.mpr kept.2]
          rfl
        rw [place_of_drive origin, place_of_drive cleanOrigin, level, split, List.tail_cons,
          List.tail_cons, Meaning.ofSegments_of_level kept.1]
  | reference segment =>
      rw [origin] at starts
      rcases starts with ⟨name, rest, split, rfl⟩
      have isName : '$' :: '\x7b' :: name ∉ [[], ['.'], ascend] := by simp [ascend]
      dsimp only
      rw [split, List.tail_cons]
      constructor
      · intro same
        have cleanOrigin : (place (clean path)).origin = .reference _ := same ▸ origin
        rw [cleanOrigin] at cleanStarts
        rcases cleanStarts with ⟨_, names, cleanSplit, _⟩
        have way := congrArg Place.way same
        rw [place_of_reference origin, place_of_reference cleanOrigin, cleanSplit, split] at way
        have further : Meaning.ofSegments names = Meaning.ofSegments rest := way
        rw [← further, (names_of_splitOn_clean isName cleanSplit).2]
      · intro kept
        have level := splitOn_clean_of_level isName split kept
        have cleanOrigin :
            (place (clean path)).origin = .reference ('$' :: '\x7b' :: name) := by
          rw [origin_place, level]
          rfl
        rw [place_of_reference origin, place_of_reference cleanOrigin, level, split,
          List.tail_cons, List.tail_cons, Meaning.ofSegments_of_level kept]

/-! ## Slashes that lean the other way -/

/-- The segments between slashes of both kinds, by those between slashes. -/
def turnSegments (segments : List Segment) : List Segment :=
  segments.flatMap fun segment => (segment.map forwardSlash).splitOn '/'

theorem splitOn_forwardSlashes (path : String) :
    (forwardSlashes path).toList.splitOn '/' = turnSegments (path.toList.splitOn '/') := by
  have turned : ∀ segments : List Segment, segments ≠ [] →
      ((['/'].intercalate segments).map forwardSlash).splitOn '/' = turnSegments segments := by
    intro segments
    induction segments with
    | nil => exact fun something => absurd rfl something
    | cons first rest induction =>
        intro _
        cases rest with
        | nil => simp [turnSegments]
        | cons next others =>
            have slash : forwardSlash '/' = '/' := rfl
            rw [List.intercalate_cons_cons, List.append_assoc, List.map_append,
              List.singleton_append, List.map_cons, slash, List.splitOn_append_cons_self,
              induction (List.cons_ne_nil _ _)]
            rfl
  rw [forwardSlashes, String.toList_ofList, ← turned _ (List.splitOn_ne_nil _ _),
    List.intercalate_splitOn]

theorem EndsInName.exists_splitOn {path : String} {name : Segment} (ends : EndsInName path name) :
    ∃ before last, path.toList.splitOn '/' = before ++ [last] ∧
      last ∉ [[], ['.'], ascend] := by
  rcases ends.last with ⟨front, split⟩
  rcases List.eq_nil_or_concat (path.toList.splitOn '/') with nothing | ⟨before, last, found⟩
  · exact absurd nothing (List.splitOn_ne_nil _ _)
  · refine ⟨before, last, by rw [found, List.concat_eq_append], ?_⟩
    intro special
    have alone : (last.map forwardSlash).splitOn '/' = [last] := by
      simp only [List.mem_cons, List.not_mem_nil, or_false] at special
      rcases special with rfl | rfl | rfl <;> rfl
    rw [segments, splitOn_forwardSlashes, found, List.concat_eq_append, turnSegments,
      List.flatMap_append, List.flatMap_singleton, alone] at split
    have same := (List.append_inj' split rfl).2
    rw [List.cons.inj same |>.1] at special
    exact ends.isName special

theorem cleanSegments_of_level {path : String} (level : ascend ∉ path.toList.splitOn '/') :
    cleanSegments path =
      (path.toList.splitOn '/').filter fun segment => segment ≠ [] ∧ segment ≠ ['.'] := by
  have kept : ∀ (rooted : Bool) (segments kept : List Segment), ascend ∉ segments →
      segments.foldl (pushSegment rooted) kept =
        (segments.filter fun segment => segment ≠ [] ∧ segment ≠ ['.']).reverse ++ kept := by
    intro rooted segments
    induction segments with
    | nil => exact fun _ _ => rfl
    | cons segment rest induction =>
        intro kept level
        have parts := List.ne_and_not_mem_of_not_mem_cons level
        rw [List.foldl_cons, induction _ parts.2]
        by_cases nothing : segment = [] ∨ segment = ['.']
        · rw [pushSegment_nothing nothing, List.filter_cons_of_neg (by grind)]
        · rw [List.filter_cons_of_pos (by grind), pushSegment_name rooted kept (by grind)]
          simp
  rw [cleanSegments, kept _ _ _ level, List.append_nil, List.reverse_reverse]

theorem ofSegments_turnSegments_filter (segments : List Segment) :
    Meaning.ofSegments
        (turnSegments (segments.filter fun segment => segment ≠ [] ∧ segment ≠ ['.'])) =
      Meaning.ofSegments (turnSegments segments) := by
  induction segments with
  | nil => rfl
  | cons segment rest induction =>
      by_cases nothing : segment = [] ∨ segment = ['.']
      · rw [List.filter_cons_of_neg (by grind), induction]
        rcases nothing with rfl | rfl <;> rfl
      · rw [List.filter_cons_of_pos (by grind), turnSegments, turnSegments, List.flatMap_cons,
          List.flatMap_cons, Meaning.ofSegments_append, Meaning.ofSegments_append]
        exact congrArg (List.foldr Meaning.through · _) induction

theorem Origin.ofFirst_eq {first : Segment} {alone other : Bool}
    (elsewhere : ofFirst first alone ≠ .here) (otherwise : ofFirst first other ≠ .here) :
    ofFirst first alone = ofFirst first other := by
  rcases ofFirst_ne_here.mp elsewhere with ⟨name, rfl⟩ | ⟨rfl, rfl⟩ | ⟨letter, rfl, isLetter, rfl⟩
  · rfl
  · cases other with
    | false => rfl
    | true => exact absurd rfl otherwise
  · cases other with
    | false => rfl
    | true => exact absurd (ofFirst_ne_here.mp otherwise) (by simp)

theorem Place.ofSegments_congr {first : Segment} {rest others : List Segment}
    (origin : Origin.ofSegments (first :: rest) = Origin.ofSegments (first :: others))
    (way : Meaning.ofSegments rest = Meaning.ofSegments others) :
    ofSegments (first :: rest) = ofSegments (first :: others) := by
  rw [ofSegments, ofSegments, origin, Meaning.ofSegments_cons, Meaning.ofSegments_cons,
    List.tail_cons, List.tail_cons, way]

section Level

variable {path : String} (level : ascend ∉ path.toList.splitOn '/')
include level

theorem ofSegments_turnSegments_clean :
    Meaning.ofSegments (turnSegments ((clean path).toList.splitOn '/')) =
      Meaning.ofSegments (turnSegments (path.toList.splitOn '/')) := by
  rw [← ofSegments_turnSegments_filter (path.toList.splitOn '/'), ← cleanSegments_of_level level,
    splitOn_eq_steps (clean path), isRooted_clean, steps_clean]
  by_cases nothing : cleanSegments path = []
  · rw [nothing]
    cases isRooted path <;> rfl
  · rw [if_neg nothing]
    cases isRooted path <;> rfl

theorem splitOn_clean_of_first {first : Segment} {rest : List Segment}
    (split : path.toList.splitOn '/' = first :: rest) (something : path ≠ "")
    (notCurrent : first ≠ ['.']) : ∃ others, (clean path).toList.splitOn '/' = first :: others ∧
      Meaning.ofSegments (turnSegments others) = Meaning.ofSegments (turnSegments rest) := by
  have kept := cleanSegments_of_level level
  rw [split] at kept
  cases rooted : isRooted path with
  | true =>
      rcases (isRooted_iff_splitOn path).mp rooted with ⟨next, others, whole⟩
      rw [split] at whole
      rw [(List.cons.inj whole).1] at kept ⊢
      have behind : cleanSegments path =
          rest.filter fun segment => segment ≠ [] ∧ segment ≠ ['.'] := kept
      rw [splitOn_eq_steps (clean path), isRooted_clean, rooted, steps_clean,
        ← ofSegments_turnSegments_filter rest, ← behind]
      refine ⟨_, rfl, ?_⟩
      split
      case isTrue nothing =>
        rw [nothing]
        rfl
      case isFalse => rfl
  | false =>
      have notEmpty : first ≠ [] := by
        intro nothing
        cases rest with
        | nil =>
            have text := toList_eq_of_splitOn split
            rw [nothing] at text
            exact something (String.toList_eq_nil_iff.mp text)
        | cons next others =>
            rw [nothing] at split
            exact absurd ((isRooted_iff_splitOn path).mpr ⟨next, others, split⟩)
              (Bool.eq_false_iff.mp rooted)
      rw [List.filter_cons_of_pos (by simp [notEmpty, notCurrent])] at kept
      rw [splitOn_eq_steps (clean path), isRooted_clean, rooted, steps_clean, kept,
        if_neg (List.cons_ne_nil _ _)]
      exact ⟨_, rfl, ofSegments_turnSegments_filter rest⟩

/-- Without ascents it makes no difference whether a path is cleaned or its slashes are turned
first, unless only one of the two is anchored. -/
theorem place_forwardSlashes_clean
    (same : isAnchored (forwardSlashes (clean path)) = isAnchored (forwardSlashes path)) :
    place (forwardSlashes (clean path)) = place (forwardSlashes path) := by
  have turned := splitOn_forwardSlashes path
  have cleanTurned := splitOn_forwardSlashes (clean path)
  cases anchored : isAnchored (forwardSlashes path) with
  | false =>
      have here := (isAnchored_eq_false (not_mem_forwardSlashes path)).mp anchored
      have cleanHere := (isAnchored_eq_false (not_mem_forwardSlashes (clean path))).mp
        (same.trans anchored)
      rw [place_of_here here, place_of_here cleanHere, turned, cleanTurned]
      exact congrArg _ (ofSegments_turnSegments_clean level)
  | true =>
      have elsewhere := (isAnchored_iff (not_mem_forwardSlashes path)).mp anchored
      have cleanElsewhere := (isAnchored_iff (not_mem_forwardSlashes (clean path))).mp
        (same.trans anchored)
      rw [origin_place, turned] at elsewhere
      rw [origin_place, cleanTurned] at cleanElsewhere
      cases split : path.toList.splitOn '/' with
      | nil => exact absurd split (List.splitOn_ne_nil _ _)
      | cons first rest =>
          rw [split] at elsewhere turned
          have something : path ≠ "" := by
            rintro rfl
            exact absurd anchored (by decide)
          have notCurrent : first ≠ ['.'] := by
            rintro rfl
            have start : turnSegments (['.'] :: rest) = ['.'] :: turnSegments rest := rfl
            rw [start] at elsewhere
            exact absurd (Origin.ofSegments_ne_here.mp elsewhere) (by simp)
          rcases splitOn_clean_of_first level split something notCurrent with
            ⟨others, cleanSplit, way⟩
          rw [cleanSplit] at cleanElsewhere cleanTurned
          cases front : (first.map forwardSlash).splitOn '/' with
          | nil => exact absurd front (List.splitOn_ne_nil _ _)
          | cons head more =>
              have opened : ∀ tail, turnSegments (first :: tail) =
                  head :: (more ++ turnSegments tail) := by
                intro tail
                rw [turnSegments, List.flatMap_cons, front]
                rfl
              rw [opened] at elsewhere cleanElsewhere
              rw [place, place, turned, cleanTurned, opened, opened]
              apply Place.ofSegments_congr
              · exact Origin.ofFirst_eq cleanElsewhere elsewhere
              · rw [Meaning.ofSegments_append, Meaning.ofSegments_append]
                exact congrArg (List.foldr Meaning.through · more) way

end Level

/-- Without backslashes behind the last slash, a path has the same directory whether its
slashes are turned before or after. -/
theorem place_directory_forwardSlashes {path : String} {before : List Segment} {last : Segment}
    (split : path.toList.splitOn '/' = before ++ [last]) (plain : '\\' ∉ last) :
    place (directory (forwardSlashes path)) = place (forwardSlashes (directory path)) := by
  have single : '/' ∉ last := by
    intro slash
    have member : last ∈ path.toList.splitOn '/' := by
      rw [split]
      exact List.mem_append_right _ (List.mem_singleton_self last)
    exact (mem_of_mem_splitOn member '/' slash).2 rfl
  have turned : turnSegments [last] = [last] := by
    have same : last.map forwardSlash = last := by
      have text : forwardSlashes (String.ofList last) = String.ofList last :=
        forwardSlashes_of_not_mem (by simpa using plain)
      simpa [forwardSlashes] using congrArg String.toList text
    rw [turnSegments, List.flatMap_singleton, same, List.splitOn_eq_singleton single]
  have whole : (forwardSlashes path).toList.splitOn '/' = turnSegments before ++ [last] := by
    rw [splitOn_forwardSlashes, split, turnSegments, List.flatMap_append]
    exact congrArg (_ ++ ·) turned
  rw [place, place, splitOn_directory whole, splitOn_forwardSlashes, splitOn_directory split,
    turnSegments, turnSegments, List.flatMap_append]
  rfl

theorem not_mem_directory {path : String} {char : Char} (other : char ≠ '/')
    (plain : char ∉ path.toList) : char ∉ (directory path).toList := by
  rw [directory, String.toList_ofList]
  intro member
  rcases of_mem_intercalate member with same | ⟨segment, inside, present⟩
  · exact other same
  · rcases List.mem_append.mp inside with front | last
    · exact plain (mem_of_mem_splitOn (List.dropLast_subset _ front) char present).1
    · rw [List.mem_singleton.mp last] at present
      cases present

namespace EndsInName

variable {path : String} {name : Segment} (ends : EndsInName path name)
include ends

theorem parent_eq : parent path = clean (directory path) := by
  rcases ends.exists_splitOn with ⟨before, last, split, isName⟩
  exact parent_of_name split isName

theorem place_parent_iff_of_plain (plain : '\\' ∉ path.toList) :
    place (forwardSlashes (parent path)) = place (directory (forwardSlashes path)) ↔
      KeepsPlace (directory path) := by
  have inDirectory := not_mem_directory (by decide) plain
  rw [ends.parent_eq, forwardSlashes_of_not_mem plain,
    forwardSlashes_of_not_mem (not_mem_clean inDirectory), place_clean_iff]

/-- Nothing but backslashes: the directory is taken for the one that the path is read from. -/
theorem parent_of_single (single : '/' ∉ path.toList) : parent path = "." := by
  have nothing : directory path = "" := by
    rw [directory, List.splitOn_eq_singleton single]
    rfl
  rw [ends.parent_eq, nothing]
  decide

theorem place_parent_of_level {before : List Segment} {last : Segment}
    (split : path.toList.splitOn '/' = before ++ [last]) (plain : '\\' ∉ last)
    (level : ascend ∉ before)
    (same : isAnchored (forwardSlashes (parent path)) = isAnchored (forwardSlashes path)) :
    place (forwardSlashes (parent path)) = place (directory (forwardSlashes path)) := by
  have turned := place_directory_forwardSlashes split plain
  have starts : isAnchored (forwardSlashes (directory path)) =
      isAnchored (forwardSlashes path) := by
    rw [Bool.eq_iff_iff, isAnchored_iff (not_mem_forwardSlashes _),
      isAnchored_iff (not_mem_forwardSlashes _), ← turned, ends.origin_directory]
  have behind : ascend ∉ (directory path).toList.splitOn '/' := by
    rw [splitOn_directory split, List.mem_append, List.mem_singleton]
    exact not_or.mpr ⟨level, by decide⟩
  rw [ends.parent_eq] at same ⊢
  rw [turned]
  exact place_forwardSlashes_clean behind (same.trans starts.symm)

end EndsInName

end SolutionLists.Path
