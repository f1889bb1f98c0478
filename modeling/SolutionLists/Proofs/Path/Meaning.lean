import SolutionLists.Proofs.Path.Behind

namespace SolutionLists.Path

/-! What a path means as a text: it goes up a number of directories and then down along
names, and a rooted path stops going up at its root. A cleaned path writes that out, and
there is one such text for each meaning. -/

/-- Where a path leads from the place that it is read from: up, then down along names. -/
structure Meaning where
  ascents : Nat
  names : List Segment
deriving DecidableEq, Repr

namespace Meaning

def here : Meaning := ⟨0, []⟩

/-- To go through one segment first. An ascent that comes behind a name takes it back. -/
def through (segment : Segment) (rest : Meaning) : Meaning :=
  if segment = [] ∨ segment = ['.'] then rest
  else if segment = ascend then { rest with ascents := rest.ascents + 1 }
  else
    match rest.ascents with
    | 0 => { rest with names := segment :: rest.names }
    | ascents + 1 => { rest with ascents }

def ofSegments (segments : List Segment) : Meaning := segments.foldr through here

/-- What is left of a meaning above which there is nothing. -/
def stopped (meaning : Meaning) : Meaning := { meaning with ascents := 0 }

def segments (meaning : Meaning) : List Segment :=
  List.replicate meaning.ascents ascend ++ meaning.names

end Meaning

def meaning (path : String) : Meaning :=
  let whole := Meaning.ofSegments (path.toList.splitOn '/')
  if isRooted path then whole.stopped else whole

/-! ## One segment more -/

namespace Meaning

theorem through_nothing {segment : Segment} (nothing : segment = [] ∨ segment = ['.'])
    (rest : Meaning) : through segment rest = rest :=
  if_pos nothing

theorem through_ascend (rest : Meaning) :
    through ascend rest = { rest with ascents := rest.ascents + 1 } := rfl

section Name

variable {name : Segment} (isName : name ∉ [[], ['.'], ascend])
include isName

theorem through_name (names : List Segment) : through name ⟨0, names⟩ = ⟨0, name :: names⟩ := by
  simp only [List.mem_cons, List.not_mem_nil, or_false, not_or] at isName
  rw [through, if_neg (not_or.mpr ⟨isName.1, isName.2.1⟩), if_neg isName.2.2]

theorem through_name_succ (ascents : Nat) (names : List Segment) :
    through name ⟨ascents + 1, names⟩ = ⟨ascents, names⟩ := by
  simp only [List.mem_cons, List.not_mem_nil, or_false, not_or] at isName
  rw [through, if_neg (not_or.mpr ⟨isName.1, isName.2.1⟩), if_neg isName.2.2]

end Name

theorem segment_cases (segment : Segment) :
    (segment = [] ∨ segment = ['.']) ∨ segment = ascend ∨ segment ∉ [[], ['.'], ascend] := by
  by_cases nothing : segment = [] ∨ segment = ['.']
  · exact .inl nothing
  · by_cases ascends : segment = ascend
    · exact .inr (.inl ascends)
    · have parts := not_or.mp nothing
      exact .inr (.inr (by simp [parts.1, parts.2, ascends]))

theorem ofSegments_cons (segment : Segment) (rest : List Segment) :
    ofSegments (segment :: rest) = through segment (ofSegments rest) := rfl

theorem ofSegments_append (first second : List Segment) :
    ofSegments (first ++ second) = first.foldr through (ofSegments second) :=
  List.foldr_append

theorem mem_names {segments : List Segment} {name : Segment}
    (member : name ∈ (ofSegments segments).names) :
    name ∈ segments ∧ name ∉ [[], ['.'], ascend] := by
  induction segments with
  | nil => cases member
  | cons segment rest induction =>
      rw [ofSegments_cons] at member
      rcases segment_cases segment with nothing | rfl | isName
      · rw [through_nothing nothing] at member
        exact ⟨List.mem_cons_of_mem _ (induction member).1, (induction member).2⟩
      · exact ⟨List.mem_cons_of_mem _ (induction member).1, (induction member).2⟩
      · rcases further : ofSegments rest with ⟨ascents, names⟩
        rw [further] at member induction
        cases ascents with
        | zero =>
            rw [through_name isName] at member
            rcases List.mem_cons.mp member with rfl | later
            · exact ⟨List.mem_cons_self, isName⟩
            · exact ⟨List.mem_cons_of_mem _ (induction later).1, (induction later).2⟩
        | succ ascents =>
            rw [through_name_succ isName] at member
            exact ⟨List.mem_cons_of_mem _ (induction member).1, (induction member).2⟩

/-! ## The segments that are written out -/

theorem ofSegments_names {names : List Segment}
    (areNames : ∀ name ∈ names, name ∉ [[], ['.'], ascend]) : ofSegments names = ⟨0, names⟩ := by
  induction names with
  | nil => rfl
  | cons name rest induction =>
      have parts := List.forall_mem_cons.mp areNames
      rw [ofSegments_cons, induction parts.2, through_name parts.1]

theorem ofSegments_replicate (count : Nat) (rest : List Segment) :
    ofSegments (List.replicate count ascend ++ rest) =
      { ofSegments rest with ascents := (ofSegments rest).ascents + count } := by
  induction count with
  | zero => rfl
  | succ count induction =>
      rw [List.replicate_succ, List.cons_append, ofSegments_cons, induction, through_ascend]
      rfl

theorem ofSegments_segments {meaning : Meaning}
    (areNames : ∀ name ∈ meaning.names, name ∉ [[], ['.'], ascend]) :
    ofSegments meaning.segments = meaning := by
  rw [segments, ofSegments_replicate, ofSegments_names areNames, Nat.zero_add]

end Meaning

/-! ## What remains of a path -/

theorem pushSegment_nothing {segment : Segment} (nothing : segment = [] ∨ segment = ['.'])
    (rooted : Bool) (kept : List Segment) : pushSegment rooted kept segment = kept := by
  rw [pushSegment.eq_def, if_pos nothing]

/-- The segments kept so far, newest first, are names above ascents. The names that are still
to come go on top, and the ascents that are still to come take names away, then pile up. -/
theorem foldl_pushSegment_eq {rooted : Bool} (segments : List Segment) {names : List Segment}
    {ascents : Nat} (areNames : ∀ name ∈ names, name ≠ ascend)
    (top : rooted = true → ascents = 0) :
    segments.foldl (pushSegment rooted) (names ++ List.replicate ascents ascend) =
      (Meaning.ofSegments segments).names.reverse ++
        (names.drop (Meaning.ofSegments segments).ascents ++
          List.replicate
            (if rooted then 0
              else ascents + ((Meaning.ofSegments segments).ascents - names.length)) ascend) := by
  induction segments generalizing names ascents with
  | nil =>
      cases rooted with
      | true => simp [Meaning.ofSegments, Meaning.here, top rfl]
      | false => simp [Meaning.ofSegments, Meaning.here]
  | cons segment rest induction =>
      rw [List.foldl_cons, Meaning.ofSegments_cons]
      rcases Meaning.segment_cases segment with nothing | rfl | isName
      · rw [Meaning.through_nothing nothing, pushSegment_nothing nothing]
        exact induction areNames top
      · rw [Meaning.through_ascend]
        cases names with
        | cons newest older =>
            have parts := List.forall_mem_cons.mp areNames
            rw [List.cons_append, pushSegment_ascend rooted _ parts.1, induction parts.2 top]
            simp
        | nil =>
            cases rooted with
            | true =>
                have kept := induction areNames top
                rw [top rfl] at kept ⊢
                simpa [pushSegment, ascend] using kept
            | false =>
                have pushed : pushSegment false ([] ++ List.replicate ascents ascend) ascend =
                    [] ++ List.replicate (ascents + 1) ascend := by
                  cases ascents with
                  | zero => rfl
                  | succ ascents => simp [pushSegment, List.replicate_succ, ascend]
                rw [pushed, induction areNames (by simp)]
                simp [Nat.add_assoc, Nat.add_comm 1]
      · have notAscent : segment ≠ ascend := by
          intro same
          exact isName (by simp [same])
        have allNames : ∀ name ∈ segment :: names, name ≠ ascend :=
          List.forall_mem_cons.mpr ⟨notAscent, areNames⟩
        rw [pushSegment_name rooted _ isName, ← List.cons_append, induction allNames top]
        rcases further : Meaning.ofSegments rest with ⟨still, later⟩
        cases still with
        | zero => simp [Meaning.through_name isName]
        | succ still => simp [Meaning.through_name_succ isName]

theorem cleanSegments_eq (path : String) : cleanSegments path = (meaning path).segments := by
  have kept := @foldl_pushSegment_eq (isRooted path) (path.toList.splitOn '/') [] 0
    (by simp) (by simp)
  rw [cleanSegments, meaning, Meaning.segments]
  simp only [List.replicate_zero, List.append_nil, List.drop_nil, List.nil_append,
    List.length_nil, Nat.sub_zero, Nat.zero_add] at kept
  rw [kept]
  cases isRooted path <;> simp [Meaning.stopped]

/-! ## Segments behind the root -/

/-- The segments of a path; those behind the root where it is rooted. -/
def steps (path : String) : List Segment :=
  if isRooted path then (path.toList.drop 1).splitOn '/' else path.toList.splitOn '/'

theorem splitOn_eq_steps (path : String) :
    path.toList.splitOn '/' = (if isRooted path then [[]] else []) ++ steps path := by
  rw [steps]
  cases rooted : isRooted path with
  | false => rfl
  | true =>
      rcases List.head?_eq_some_iff.mp (beq_iff_eq.mp rooted) with ⟨tail, chars⟩
      rw [chars, List.splitOn_cons_eq_if_modifyHead, if_pos (beq_self_eq_true '/')]
      rfl

section Clean

variable (path : String)

theorem isRooted_clean : isRooted (clean path) = isRooted path := by
  cases rooted : isRooted path with
  | true =>
      rw [clean_of_rooted rooted]
      simp [isRooted]
  | false =>
      rw [clean_of_relative rooted]
      split
      case isTrue => decide
      case isFalse something =>
        apply Bool.eq_false_iff.mpr
        intro starts
        rcases (isRooted_iff_splitOn _).mp starts with ⟨next, rest, split⟩
        rw [String.toList_ofList, List.splitOn_intercalate '/' slash_not_mem_cleanSegments
          something] at split
        have first : [] ∈ cleanSegments path := by
          rw [split]
          exact List.mem_cons_self
        exact (mem_cleanSegments first).2.1 rfl

theorem steps_clean :
    steps (clean path) =
      if cleanSegments path = [] then [if isRooted path then [] else ['.']]
      else cleanSegments path := by
  rw [steps, isRooted_clean]
  cases rooted : isRooted path with
  | true =>
      have behind : (clean path).toList.drop 1 = ['/'].intercalate (cleanSegments path) := by
        rw [clean_of_rooted rooted]
        simp
      rw [if_pos rfl, behind]
      split
      case isTrue nothing =>
        rw [nothing]
        rfl
      case isFalse something =>
        exact List.splitOn_intercalate '/' slash_not_mem_cleanSegments something
  | false =>
      rw [if_neg Bool.false_ne_true, clean_of_relative rooted]
      split
      case isTrue => rfl
      case isFalse something =>
        rw [String.toList_ofList]
        exact List.splitOn_intercalate '/' slash_not_mem_cleanSegments something

theorem mem_names_meaning {name : Segment} (member : name ∈ (meaning path).names) :
    name ∉ [[], ['.'], ascend] := by
  rw [meaning] at member
  cases rooted : isRooted path <;> simp only [rooted] at member
  · exact (Meaning.mem_names member).2
  · exact (Meaning.mem_names member).2

theorem ascents_meaning (rooted : isRooted path = true) : (meaning path).ascents = 0 := by
  rw [meaning, if_pos rooted]
  rfl

theorem ofSegments_clean :
    Meaning.ofSegments ((clean path).toList.splitOn '/') = meaning path := by
  have written := Meaning.ofSegments_segments fun _ => mem_names_meaning path
  rw [← cleanSegments_eq] at written
  have behind : Meaning.ofSegments (steps (clean path)) = meaning path := by
    rw [steps_clean]
    split
    case isTrue nothing =>
      rw [← written, nothing]
      cases isRooted path <;> rfl
    case isFalse => exact written
  rw [splitOn_eq_steps]
  cases isRooted (clean path) <;> exact behind

theorem meaning_clean : meaning (clean path) = meaning path := by
  have written := ofSegments_clean path
  rw [meaning, written, isRooted_clean]
  split
  case isTrue rooted => rw [Meaning.stopped, ← ascents_meaning path rooted]
  case isFalse => rfl

end Clean

/-! ## One text for each meaning -/

/-- A path without segments that lead nowhere, unless it is `.` or `/` itself, in which
ascents stand in front of all names; a rooted one has none. -/
structure Canonical (path : String) : Prop where
  stays : path ≠ "." → path ≠ "/" → ∀ segment ∈ steps path, Stays segment
  leading : ∃ ascents names, steps path = List.replicate ascents ascend ++ names ∧
    ascend ∉ names ∧ (isRooted path = true → ascents = 0)

theorem canonical_clean (path : String) : Canonical (clean path) where
  stays other notRoot := by
    have something : cleanSegments path ≠ [] := by
      intro nothing
      cases rooted : isRooted path with
      | false => exact other (clean_eq_dot.mpr ⟨rooted, nothing⟩)
      | true =>
          apply notRoot
          rw [clean_of_rooted rooted, nothing]
          rfl
    rw [steps_clean, if_neg something]
    exact fun _ member => (mem_cleanSegments member).2
  leading := by
    rw [steps_clean, isRooted_clean]
    split
    case isTrue =>
      refine ⟨0, _, rfl, ?_, fun _ => rfl⟩
      cases isRooted path <;> decide
    case isFalse =>
      refine ⟨_, _, cleanSegments_eq path, ?_, ascents_meaning path⟩
      intro member
      exact mem_names_meaning path member (by decide)

/-- A cleaned path is the one text for what the path means. -/
theorem clean_writes_meaning (path other : String) :
    Canonical (clean path) ∧ clean (clean path) = clean path ∧
      (clean path = clean other ↔
        isRooted path = isRooted other ∧ meaning path = meaning other) := by
  have same : ∀ first second : String, clean first = clean second ↔
      isRooted first = isRooted second ∧ meaning first = meaning second := by
    intro first second
    constructor
    · intro text
      constructor
      · rw [← isRooted_clean first, text, isRooted_clean]
      · rw [← meaning_clean first, text, meaning_clean]
    · intro parts
      rw [clean, clean, cleanSegments_eq, cleanSegments_eq, parts.1, parts.2]
  refine ⟨canonical_clean path, ?_, same path other⟩
  exact (same _ _).mpr ⟨isRooted_clean path, meaning_clean path⟩

example : meaning "a/../../b" = ⟨1, [['b']]⟩ := by decide
example : meaning "/a/../../b" = ⟨0, [['b']]⟩ := by decide

end SolutionLists.Path
