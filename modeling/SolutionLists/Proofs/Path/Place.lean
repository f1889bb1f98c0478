import SolutionLists.Proofs.Path.Meaning

namespace SolutionLists.Path

/-! The places that paths lead to, as far as their texts tell. The value of a variable at the
start is not looked into, and above the root of a host or of a drive there is nothing. What
is said here is what becomes of the place when a path is cleaned or hung on the root of the
solution, and of the directory in front of its last slash. -/

/-- Where a path starts from. -/
inductive Origin where
  | here
  | root
  | drive (letter : Char)
  /-- The value of a variable, in the segment that refers to it. -/
  | reference (segment : Segment)
deriving DecidableEq, Repr

/-- The letter of the drive that a segment names, where it names one. -/
def driveOf? : Segment → Option Char
  | [letter, mark] => if mark = ':' ∧ letter.isAlpha then some letter else none
  | _ => none

/-- What the first segment of a path says, which may be the only one. -/
def Origin.ofFirst (first : Segment) (alone : Bool) : Origin :=
  if ['$', '\x7b'].isPrefixOf first then .reference first
  else if alone then .here
  else if first = [] then .root
  else
    match driveOf? first with
    | some letter => .drive letter
    | none => .here

def Origin.ofSegments : List Segment → Origin
  | [] => .here
  | first :: rest => .ofFirst first rest.isEmpty

/-- Where a path starts from, and the way from there. -/
structure Place where
  origin : Origin
  way : Meaning
deriving DecidableEq, Repr

def Place.ofSegments (segments : List Segment) : Place :=
  match Origin.ofSegments segments with
  | .here => ⟨.here, .ofSegments segments⟩
  | .root => ⟨.root, (Meaning.ofSegments segments.tail).stopped⟩
  | .drive letter => ⟨.drive letter, (Meaning.ofSegments segments.tail).stopped⟩
  | .reference segment => ⟨.reference segment, .ofSegments segments.tail⟩

def place (path : String) : Place := .ofSegments (path.toList.splitOn '/')

def directory (path : String) : String :=
  String.ofList (['/'].intercalate ((path.toList.splitOn '/').dropLast ++ [[]]))

/-! ## Origins -/

theorem origin_place (path : String) :
    (place path).origin = Origin.ofSegments (path.toList.splitOn '/') := by
  rw [place, Place.ofSegments]
  split <;> simp_all

theorem place_of_here {path : String} (here : (place path).origin = .here) :
    place path = ⟨.here, .ofSegments (path.toList.splitOn '/')⟩ := by
  rw [origin_place] at here
  rw [place, Place.ofSegments, here]

theorem toList_eq_of_splitOn {path : String} {first : Segment} {others : List Segment}
    (split : path.toList.splitOn '/' = first :: others) :
    path.toList = first ++ if others = [] then [] else '/' :: ['/'].intercalate others := by
  have text : ['/'].intercalate (path.toList.splitOn '/') = path.toList :=
    List.intercalate_splitOn _
  rw [← text, split]
  cases others with
  | nil => simp
  | cons next rest => simp [List.intercalate_cons_cons]

theorem isPrefixOf_reference {segment : Segment} :
    ['$', '\x7b'].isPrefixOf segment = true ↔ ∃ name, segment = '$' :: '\x7b' :: name := by
  rw [List.isPrefixOf_iff_prefix]
  exact exists_congr fun _ => eq_comm

theorem driveOf?_eq_some {segment : Segment} {letter : Char} :
    driveOf? segment = some letter ↔ segment = [letter, ':'] ∧ letter.isAlpha = true := by
  match segment with
  | [] => simp [driveOf?]
  | [first] => simp [driveOf?]
  | [first, mark] =>
      simp only [driveOf?]
      split <;> grind
  | first :: mark :: next :: rest => simp [driveOf?]

theorem Origin.ofFirst_ne_here {first : Segment} {alone : Bool} :
    ofFirst first alone ≠ .here ↔
      (∃ name, first = '$' :: '\x7b' :: name) ∨ (first = [] ∧ alone = false) ∨
        ∃ letter, first = [letter, ':'] ∧ letter.isAlpha = true ∧ alone = false := by
  rw [ofFirst, ← isPrefixOf_reference]
  simp only [← and_assoc, ← driveOf?_eq_some]
  split
  case isTrue reference => simp [reference]
  case isFalse other =>
    cases alone with
    | true => simp [other]
    | false =>
        by_cases nothing : first = []
        · simp [nothing]
        · cases drive : driveOf? first <;> simp [other, nothing]

theorem Origin.ofSegments_ne_here {segments : List Segment} :
    ofSegments segments ≠ .here ↔
      (∃ name others, segments = ('$' :: '\x7b' :: name) :: others) ∨
        (∃ next rest, segments = [] :: next :: rest) ∨
          ∃ letter next rest, segments = [letter, ':'] :: next :: rest ∧
            letter.isAlpha = true := by
  match segments with
  | [] => simp [ofSegments]
  | [first] => simp [ofSegments, ofFirst_ne_here]
  | first :: next :: rest => simp [ofSegments, ofFirst_ne_here]

def Origin.Starts (segments : List Segment) : Origin → Prop
  | .here => True
  | .root => ∃ next rest, segments = [] :: next :: rest
  | .drive letter => ∃ next rest, segments = [letter, ':'] :: next :: rest
  | .reference segment => ∃ name rest,
      segments = segment :: rest ∧ segment = '$' :: '\x7b' :: name

theorem Origin.starts_ofSegments (segments : List Segment) :
    (ofSegments segments).Starts segments := by
  cases segments with
  | nil => trivial
  | cons first rest =>
      rw [ofSegments, ofFirst]
      split
      case isTrue reference =>
        rcases isPrefixOf_reference.mp reference with ⟨name, rfl⟩
        exact ⟨name, rest, rfl, rfl⟩
      case isFalse =>
        cases rest with
        | nil => trivial
        | cons next others =>
            rw [List.isEmpty_cons, if_neg Bool.false_ne_true]
            split
            case isTrue nothing =>
              rw [nothing]
              exact ⟨next, others, rfl⟩
            case isFalse =>
              split
              case h_1 letter drive =>
                rw [(driveOf?_eq_some.mp drive).1]
                exact ⟨next, others, rfl⟩
              case h_2 => trivial

theorem isReference_iff_splitOn (path : String) :
    isReference path = true ↔
      ∃ name others, path.toList.splitOn '/' = ('$' :: '\x7b' :: name) :: others := by
  rw [isReference, Text.startsWith, List.isPrefixOf_iff_prefix]
  constructor
  · intro starts
    rcases starts with ⟨rest, chars⟩
    rw [← chars]
    cases split : rest.splitOn '/' with
    | nil => exact absurd split (List.splitOn_ne_nil _ _)
    | cons first others =>
        exact ⟨first, others, by simp [List.splitOn_cons_eq_if_modifyHead, split]⟩
  · intro written
    rcases written with ⟨name, others, split⟩
    rw [toList_eq_of_splitOn split]
    exact ⟨_, rfl⟩

/-- A path is anchored where it starts from some other place than the one it is read from. -/
theorem isAnchored_iff {path : String} (forward : '\\' ∉ path.toList) :
    isAnchored path = true ↔ (place path).origin ≠ .here := by
  rw [origin_place, Origin.ofSegments_ne_here, isAnchored, Bool.or_eq_true,
    isReference_iff_splitOn, isAbsolute_iff, isRooted_iff_splitOn]
  have drive : (∃ drive slash rest, path.toList = drive :: ':' :: slash :: rest ∧
      drive.isAlpha = true ∧ (slash = '/' ∨ slash = '\\')) ↔
      ∃ letter next rest, path.toList.splitOn '/' = [letter, ':'] :: next :: rest ∧
        letter.isAlpha = true := by
    constructor
    · intro found
      rcases found with ⟨letter, slash, rest, chars, isLetter, rfl | rfl⟩
      · have notSlash : letter ≠ '/' := by
          intro same
          rw [same] at isLetter
          exact absurd isLetter (by decide)
        cases split : rest.splitOn '/' with
        | nil => exact absurd split (List.splitOn_ne_nil _ _)
        | cons next others =>
            refine ⟨letter, next, others, ?_, isLetter⟩
            rw [chars]
            simp [List.splitOn_cons_eq_if_modifyHead, notSlash, split]
      · exact absurd (chars ▸ by simp) forward
    · intro found
      rcases found with ⟨letter, next, rest, split, isLetter⟩
      exact ⟨letter, '/', _, toList_eq_of_splitOn split, isLetter, .inl rfl⟩
  rw [drive]

theorem isAnchored_eq_false {path : String} (forward : '\\' ∉ path.toList) :
    isAnchored path = false ↔ (place path).origin = .here := by
  rw [← Bool.not_eq_true, isAnchored_iff forward, Decidable.not_not]

/-! ## A name at the end -/

namespace Meaning

theorem ofSegments_of_level {segments : List Segment} (level : (ofSegments segments).ascents = 0) :
    ofSegments (ofSegments segments).names = ofSegments segments := by
  have areNames : ∀ name ∈ (ofSegments segments).names, name ∉ [[], ['.'], ascend] :=
    fun _ member => (mem_names member).2
  have written := ofSegments_segments areNames
  rwa [Meaning.segments, level, List.replicate_zero, List.nil_append] at written

def concat (meaning : Meaning) (name : Segment) : Meaning :=
  { meaning with names := meaning.names ++ [name] }

theorem concat_injective (name : Segment) : Function.Injective (concat · name) := by
  intro first second same
  have parts := Meaning.mk.inj same
  cases first
  cases second
  exact Meaning.mk.injEq .. ▸ ⟨parts.1, List.append_cancel_right parts.2⟩

theorem segments_concat (meaning : Meaning) (name : Segment) :
    (meaning.concat name).segments = meaning.segments ++ [name] := by
  rw [segments, segments, List.append_assoc]
  rfl

theorem ofSegments_nothing (before : List Segment) :
    ofSegments (before ++ [[]]) = ofSegments before := by
  rw [ofSegments_append, ofSegments_cons, through_nothing (.inl rfl)]
  rfl

variable {name : Segment} (isName : name ∉ [[], ['.'], ascend])
include isName

theorem ofSegments_concat (before : List Segment) :
    ofSegments (before ++ [name]) = (ofSegments before).concat name := by
  induction before with
  | nil => exact through_name isName []
  | cons segment rest induction =>
      rw [List.cons_append, ofSegments_cons, ofSegments_cons, induction]
      rcases segment_cases segment with nothing | rfl | otherName
      · rw [through_nothing nothing, through_nothing nothing]
      · rfl
      · rcases ofSegments rest with ⟨ascents, names⟩
        cases ascents with
        | zero =>
            rw [concat, through_name otherName, through_name otherName]
            rfl
        | succ ascents =>
            rw [concat, through_name_succ otherName, through_name_succ otherName]
            rfl

theorem through_ne (meaning : Meaning) : through name meaning ≠ meaning := by
  rcases meaning with ⟨ascents, names⟩
  intro same
  cases ascents with
  | zero =>
      rw [through_name isName] at same
      simpa using congrArg (List.length ∘ Meaning.names) same
  | succ ascents =>
      rw [through_name_succ isName] at same
      simpa using congrArg Meaning.ascents same

end Meaning

section Directory

variable {path : String} {before : List Segment} {name : Segment}
  (split : path.toList.splitOn '/' = before ++ [name])
include split

theorem splitOn_directory : (directory path).toList.splitOn '/' = before ++ [[]] := by
  have unsplit : ∀ segment ∈ before ++ [[]], '/' ∉ segment := by
    intro segment member slash
    rcases List.mem_append.mp member with inside | last
    · have found : segment ∈ path.toList.splitOn '/' := by
        rw [split]
        exact List.mem_append_left _ inside
      exact (mem_of_mem_splitOn found '/' slash).2 rfl
    · rw [List.mem_singleton.mp last] at slash
      cases slash
  rw [directory, split, List.dropLast_concat, String.toList_ofList,
    List.splitOn_intercalate '/' unsplit (by simp)]

theorem isRooted_directory : isRooted (directory path) = isRooted path := by
  rw [Bool.eq_iff_iff, isRooted_iff_splitOn, isRooted_iff_splitOn, splitOn_directory split, split]
  match before with
  | [] => simp
  | [first] => simp
  | first :: second :: rest => simp

variable (isName : name ∉ [[], ['.'], ascend])
include isName

theorem meaning_of_name :
    meaning path = (meaning (directory path)).concat name := by
  rw [meaning, meaning, isRooted_directory split, splitOn_directory split, split,
    Meaning.ofSegments_concat isName, Meaning.ofSegments_nothing]
  cases isRooted path <;> rfl

theorem cleanSegments_of_name : cleanSegments path = cleanSegments (directory path) ++ [name] := by
  rw [cleanSegments_eq, cleanSegments_eq, meaning_of_name split isName, Meaning.segments_concat]

theorem parent_of_name : parent path = clean (directory path) := by
  have slash : '/' ∉ name := by
    intro member
    have found : name ∈ path.toList.splitOn '/' := by
      rw [split]
      exact List.mem_append_right _ (List.mem_singleton_self name)
    exact (mem_of_mem_splitOn found '/' member).2 rfl
  have dropped : ∀ front : List Char,
      (front ++ name).reverse.dropWhile (· ≠ '/') = front.reverse.dropWhile (· ≠ '/') := by
    intro front
    rw [List.reverse_append]
    apply List.dropWhile_append_of_pos
    intro char member
    have other : char ≠ '/' := fun same => slash (same ▸ List.mem_reverse.mp member)
    simpa using other
  have concat := cleanSegments_of_name split isName
  have rooted := isRooted_directory split
  by_cases nothing : cleanSegments (directory path) = []
  · rw [nothing, List.nil_append] at concat
    cases start : isRooted path with
    | false =>
        have text : (clean path).toList = [] ++ name := by
          rw [clean_of_relative start, concat, if_neg (by simp)]
          simp
        rw [parent, text, dropped, clean_of_relative (rooted.trans start), nothing]
        rfl
    | true =>
        have text : (clean path).toList = ['/'] ++ name := by
          rw [clean_of_rooted start, concat]
          simp
        rw [parent, text, dropped, clean_of_rooted (rooted.trans start), nothing]
        rfl
  · have something : (clean (directory path)).toList ≠ [] := by
      rw [ne_eq, String.toList_eq_nil_iff]
      intro empty
      have cleaned := steps_clean (directory path)
      rw [if_neg nothing, empty] at cleaned
      have member : [] ∈ cleanSegments (directory path) := by
        rw [← cleaned]
        decide
      exact (mem_cleanSegments member).2.1 rfl
    have text : (clean path).toList = (clean (directory path)).toList ++ ['/'] ++ name := by
      have joined : clean path = clean (directory path) ++ "/" ++ String.ofList name :=
        clean_concat rooted.symm (by rw [concat, String.toList_ofList]) nothing
      rw [joined]
      simp
    rw [parent, text, dropped, List.reverse_append]
    cases above : (clean (directory path)).toList.reverse with
    | nil => exact absurd (List.reverse_eq_nil_iff.mp above) something
    | cons last rest =>
        have whole : (last :: rest).reverse = (clean (directory path)).toList := by
          rw [← above, List.reverse_reverse]
        change String.ofList (last :: rest).reverse = _
        rw [whole, String.ofList_toList]

end Directory

/-! ## Paths hung on the root of the solution -/

/-- The way that segments lead from the root of the solution, read from the directory `base`. -/
def wayFrom (base : String) (segments : List Segment) : Meaning :=
  let whole := Meaning.ofSegments
    ((if base = "" then [] else base.toList.splitOn '/') ++ segments)
  if isRooted base then whole.stopped else whole

theorem wayFrom_empty (segments : List Segment) : wayFrom "" segments = .ofSegments segments := by
  have relative : isRooted "" = false := by decide
  simp only [wayFrom, relative, if_true, List.nil_append, Bool.false_eq_true, if_false]

theorem wayFrom_concat {name : Segment} (isName : name ∉ [[], ['.'], ascend]) (base : String)
    (before : List Segment) :
    wayFrom base (before ++ [name]) = (wayFrom base before).concat name := by
  rw [wayFrom, wayFrom, ← List.append_assoc, Meaning.ofSegments_concat isName]
  cases isRooted base <;> rfl

theorem wayFrom_congr {first second : List Segment}
    (same : Meaning.ofSegments first = Meaning.ofSegments second) (base : String) :
    wayFrom base first = wayFrom base second := by
  rw [wayFrom, wayFrom, Meaning.ofSegments_append, Meaning.ofSegments_append, same]

theorem exists_wayFrom_ne (segments : List Segment) (way : Meaning) :
    ∃ base, wayFrom base segments ≠ way := by
  apply Classical.byContradiction
  intro always
  have here := Decidable.not_not.mp (not_exists.mp always "")
  have inside := Decidable.not_not.mp (not_exists.mp always "r")
  have same : Meaning.through ['r'] (Meaning.ofSegments segments) = Meaning.ofSegments segments :=
    inside.trans here.symm
  exact Meaning.through_ne (by decide) _ same

section Free

variable {base path : String} (free : isAnchored (forwardSlashes path) = false)
include free

theorem isRooted_below_eq : isRooted (below base path) = isRooted base := by
  rw [below]
  split
  case isTrue empty =>
    rw [isRooted_of_not_anchored free, empty]
    rfl
  case isFalse inside => exact isRooted_join inside

theorem meaning_below : meaning (below base path) = wayFrom base (segments path) := by
  rw [meaning, wayFrom, splitOn_below, isRooted_below_eq free]

theorem place_anchor :
    place (anchor base path) =
      ⟨.reference solutionRoot.toList, wayFrom base (segments path)⟩ := by
  have written := ofSegments_clean (below base path)
  rw [← meaning_below free, anchor_of_free free, ← written]
  split
  case isTrue nothing =>
    rw [nothing]
    decide
  case isFalse =>
    have root : solutionRoot.toList.splitOn '/' = [solutionRoot.toList] := by decide
    rw [place, splitOn_join, root]
    rfl

section Name

variable {before : List Segment} {name : Segment} (split : segments path = before ++ [name])
  (isName : name ∉ [[], ['.'], ascend])
include split isName

theorem exists_splitOn_anchor : ∃ front,
    (anchor base path).toList.splitOn '/' = (solutionRoot.toList :: front) ++ [name] := by
  have cleaned : cleanSegments (below base path) =
      (wayFrom base before).segments ++ [name] := by
    rw [cleanSegments_eq, meaning_below free, split, wayFrom_concat isName,
      Meaning.segments_concat]
  have something : cleanSegments (below base path) ≠ [] := by
    rw [cleaned]
    simp
  have notDot : clean (below base path) ≠ "." := fun dot => something (clean_eq_dot.mp dot).2
  have root : solutionRoot.toList.splitOn '/' = [solutionRoot.toList] := by decide
  rw [anchor_of_free free, if_neg notDot, splitOn_join, root, splitOn_eq_steps, steps_clean,
    if_neg something, cleaned, ← List.append_assoc, ← List.append_assoc]
  exact ⟨_, rfl⟩

theorem place_directory_anchor :
    place (directory (anchor base path)) =
      ⟨.reference solutionRoot.toList, wayFrom base before⟩ := by
  have hung : place (anchor base path) = _ := place_anchor free
  have ending : ∃ front,
      (anchor base path).toList.splitOn '/' = (solutionRoot.toList :: front) ++ [name] :=
    exists_splitOn_anchor free split isName
  rcases ending with ⟨front, whole⟩
  have named : place (anchor base path) =
      ⟨.reference solutionRoot.toList, .ofSegments (front ++ [name])⟩ := by
    rw [place, whole]
    rfl
  rw [hung, split, wayFrom_concat isName, Meaning.ofSegments_concat isName] at named
  have same : wayFrom base before = Meaning.ofSegments front :=
    Meaning.concat_injective name (Place.mk.inj named).2
  rw [place, splitOn_directory whole, same, ← Meaning.ofSegments_nothing front]
  rfl

end Name

end Free

/-! ## The place without its root -/

/-- A path that ends in the name of a file, not in the value of a variable. -/
structure EndsInName (path : String) (name : Segment) : Prop where
  last : ∃ before, segments path = before ++ [name]
  isName : name ∉ [[], ['.'], ascend]
  behind : isReference (forwardSlashes path) = true → segments path ≠ [name]

theorem not_mem_forwardSlashes (path : String) : '\\' ∉ (forwardSlashes path).toList := by
  rw [forwardSlashes, String.toList_ofList]
  intro member
  rcases List.mem_map.mp member with ⟨char, -, turned⟩
  rw [forwardSlash] at turned
  split at turned
  · exact absurd turned (by decide)
  · contradiction

namespace EndsInName

variable {path : String} {name : Segment} (ends : EndsInName path name)
include ends

theorem origin_directory :
    (place (directory (forwardSlashes path))).origin = (place (forwardSlashes path)).origin := by
  rcases ends.last with ⟨before, split⟩
  rw [origin_place, origin_place, splitOn_directory split]
  have whole : (forwardSlashes path).toList.splitOn '/' = before ++ [name] := split
  rw [whole]
  cases before with
  | cons first rest => cases rest <;> rfl
  | nil =>
      apply Eq.symm
      apply Decidable.not_not.mp
      intro elsewhere
      rcases Origin.ofSegments_ne_here.mp elsewhere with reference | root | drive
      · rw [List.nil_append] at whole
        rw [List.nil_append, ← whole] at reference
        exact ends.behind ((isReference_iff_splitOn _).mpr reference) whole
      · rcases root with ⟨next, rest, same⟩
        cases same
      · rcases drive with ⟨letter, next, rest, same, -⟩
        cases same

/-- What is hung on the root is the directory of a file from all directories exactly where it
is the directory of the file as both are written. -/
theorem place_anchor_iff (other : String) :
    (∀ base, place (anchor base other) = place (directory (anchor base path))) ↔
      place (forwardSlashes other) = place (directory (forwardSlashes path)) := by
  rcases ends.last with ⟨before, split⟩
  have origin := ends.origin_directory
  have pathStarts := isAnchored_eq_false (not_mem_forwardSlashes path)
  have otherStarts := isAnchored_eq_false (not_mem_forwardSlashes other)
  -- What stays as it is does not look at the directory, and what is hung does.
  cases anchored : isAnchored (forwardSlashes path) with
  | true =>
      have elsewhere : (place (directory (forwardSlashes path))).origin ≠ .here := by
        rw [origin, ← isAnchored_iff (not_mem_forwardSlashes path)]
        exact anchored
      cases otherAnchored : isAnchored (forwardSlashes other) with
      | true =>
          simp only [anchor_of_anchored anchored, anchor_of_anchored otherAnchored, forall_const]
      | false =>
          constructor
          · intro always
            rcases exists_wayFrom_ne (segments other)
              (place (directory (forwardSlashes path))).way with ⟨base, apart⟩
            have same := always base
            rw [place_anchor otherAnchored, anchor_of_anchored anchored] at same
            exact absurd (congrArg Place.way same) apart
          · intro same
            rw [← same] at elsewhere
            exact absurd (otherStarts.mp otherAnchored) elsewhere
  | false =>
      have here : (place (directory (forwardSlashes path))).origin = .here :=
        origin.trans (pathStarts.mp anchored)
      cases otherAnchored : isAnchored (forwardSlashes other) with
      | true =>
          constructor
          · intro always
            rcases exists_wayFrom_ne before (place (forwardSlashes other)).way with ⟨base, apart⟩
            have same := always base
            rw [place_directory_anchor anchored split ends.isName,
              anchor_of_anchored otherAnchored] at same
            exact absurd (congrArg Place.way same).symm apart
          · intro same
            rw [← same] at here
            exact absurd here ((isAnchored_iff (not_mem_forwardSlashes other)).mp otherAnchored)
      | false =>
          have ways : place (forwardSlashes other) = place (directory (forwardSlashes path)) ↔
              Meaning.ofSegments (segments other) = Meaning.ofSegments before := by
            rw [place_of_here here, place_of_here (otherStarts.mp otherAnchored),
              splitOn_directory split, Meaning.ofSegments_nothing]
            simp [segments]
          rw [ways]
          constructor
          · intro always
            have same := always ""
            rw [place_directory_anchor anchored split ends.isName,
              place_anchor otherAnchored, wayFrom_empty, wayFrom_empty] at same
            exact (Place.mk.inj same).2
          · intro same base
            rw [place_directory_anchor anchored split ends.isName, place_anchor otherAnchored,
              wayFrom_congr same]

end EndsInName

end SolutionLists.Path
