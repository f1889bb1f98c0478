import SolutionLists.Proofs.Path.Spelling

namespace SolutionLists.Path

/-! What a path takes over from the front that it stands behind, when a slash parts them:
where it starts, whether it is anchored, and what is left once both are cleaned. -/

/-! ## Names -/

/-- A name of a file that is no path. -/
structure PlainName (name : String) : Prop where
  isName : name.toList ∉ [[], ['.'], ascend]
  single : '/' ∉ name.toList
  forward : '\\' ∉ name.toList

def isDrive (path : String) : Bool :=
  match path.toList with
  | [drive, ':'] => drive.isAlpha
  | _ => false

theorem isDrive_iff {path : String} :
    isDrive path = true ↔ ∃ drive, path.toList = [drive, ':'] ∧ drive.isAlpha = true := by
  unfold isDrive
  split
  case h_1 drive chars => simp [chars]
  case h_2 other => simpa using fun drive chars => absurd chars (other drive)

theorem isAbsolute_iff {path : String} :
    isAbsolute path = true ↔ isRooted path = true ∨
      ∃ drive slash rest, path.toList = drive :: ':' :: slash :: rest ∧ drive.isAlpha = true ∧
        (slash = '/' ∨ slash = '\\') := by
  unfold isAbsolute isRooted
  split
  case h_1 rest chars => simp [chars]
  case h_2 drive slash rest first chars =>
    have other : drive ≠ '/' := first
    simp [chars, other, and_assoc]
  case h_3 rooted driven =>
    simp only [Bool.false_eq_true, false_iff, not_or, not_exists, not_and]
    constructor
    · intro first
      rcases List.head?_eq_some_iff.mp (beq_iff_eq.mp first) with ⟨rest, chars⟩
      exact rooted rest chars
    · intro drive slash rest chars
      exact absurd chars (driven drive slash rest)

namespace PlainName

variable {name : String} (plain : PlainName name)
include plain

theorem forwardSlashes : Path.forwardSlashes name = name :=
  forwardSlashes_of_not_mem plain.forward

theorem segments : Path.segments name = [name.toList] := by
  rw [Path.segments, plain.forwardSlashes, List.splitOn_eq_singleton plain.single]

theorem isAbsolute : Path.isAbsolute name = false := by
  apply Bool.eq_false_iff.mpr
  intro absolute
  rcases isAbsolute_iff.mp absolute with rooted | ⟨drive, slash, rest, chars, _, forward | backward⟩
  · exact plain.single (List.mem_of_head? (beq_iff_eq.mp rooted))
  · exact plain.single (by simp [chars, forward])
  · exact plain.forward (by simp [chars, backward])

end PlainName

/-! ## Paths behind one front -/

theorem forwardSlashes_append (first second : String) :
    forwardSlashes (first ++ second) = forwardSlashes first ++ forwardSlashes second := by
  simp [forwardSlashes]

theorem forwardSlashes_slash (front rest : String) :
    forwardSlashes (front ++ "/" ++ rest) = forwardSlashes front ++ "/" ++ forwardSlashes rest := by
  rw [forwardSlashes_append, forwardSlashes_append]
  rfl

theorem forwardSlashes_eq_empty {path : String} : forwardSlashes path = "" ↔ path = "" := by
  rw [← String.toList_eq_nil_iff, forwardSlashes, String.toList_ofList, List.map_eq_nil_iff,
    String.toList_eq_nil_iff]

theorem forwardSlash_of_ne {char other : Char} (turned : forwardSlash char = other)
    (kept : other ≠ '/') : char = other := by
  unfold forwardSlash at turned
  split at turned
  case isTrue => exact absurd turned.symm kept
  case isFalse => exact turned

theorem isDrive_of_forwardSlashes {path : String} (drive : isDrive (forwardSlashes path) = true) :
    isDrive path = true := by
  rcases isDrive_iff.mp drive with ⟨letter, chars, isLetter⟩
  rw [forwardSlashes, String.toList_ofList] at chars
  have notSlash : letter ≠ '/' := by
    rintro rfl
    exact absurd isLetter (by decide)
  rcases List.map_eq_cons_iff.mp chars with ⟨first, others, whole, turned, rest⟩
  rcases List.map_eq_cons_iff.mp rest with ⟨second, none, more, turnedSecond, nothing⟩
  rw [more, List.map_eq_nil_iff.mp nothing, forwardSlash_of_ne turned notSlash,
    forwardSlash_of_ne turnedSecond (by decide)] at whole
  exact isDrive_iff.mpr ⟨letter, whole, isLetter⟩

theorem segments_slash (front rest : String) :
    segments (front ++ "/" ++ rest) = segments front ++ segments rest := by
  rw [segments, forwardSlashes_slash]
  exact splitOn_join _ _

theorem isReference_slash (front rest : String) :
    isReference (front ++ "/" ++ rest) = isReference front := by
  unfold isReference Text.startsWith
  rw [String.toList_append, String.toList_append]
  match chars : front.toList with
  | [] => rfl
  | [first] => simp [List.isPrefixOf]
  | first :: second :: others => simp [List.isPrefixOf]

theorem isAbsolute_slash (front rest : String) :
    isAbsolute (front ++ "/" ++ rest) = true ↔
      isAbsolute front = true ∨ front = "" ∨ isDrive front = true := by
  rw [isAbsolute_iff, isAbsolute_iff, isDrive_iff, ← String.toList_eq_nil_iff]
  unfold isRooted
  rw [String.toList_append, String.toList_append]
  match chars : front.toList with
  | [] => simp
  | [first] => simp
  | [first, second] => simp [and_comm, and_left_comm]
  | first :: second :: third :: others => simp

theorem isAnchored_slash (front rest : String) :
    isAnchored (front ++ "/" ++ rest) = true ↔
      isAnchored front = true ∨ front = "" ∨ isDrive front = true := by
  rw [isAnchored, isAnchored, Bool.or_eq_true, Bool.or_eq_true, isReference_slash,
    isAbsolute_slash, or_assoc]

theorem SameDirectory.refl (path : String) : SameDirectory path path :=
  ⟨rfl, .refl _⟩

theorem SameDirectory.slash (front : String) {rest other : String}
    (same : Relation.EqvGen Drops (Path.segments rest) (Path.segments other)) :
    SameDirectory (front ++ "/" ++ rest) (front ++ "/" ++ other) := by
  have rooted := (isRooted_slash (forwardSlashes front) (forwardSlashes rest)).trans
    (isRooted_slash (forwardSlashes front) (forwardSlashes other)).symm
  unfold SameDirectory route
  rw [segments_slash, segments_slash, forwardSlashes_slash, forwardSlashes_slash,
    isReference_slash, isReference_slash, rooted]
  cases split : Path.segments front with
  | nil => exact absurd split (List.splitOn_ne_nil _ _)
  | cons first others =>
      dsimp only [List.cons_append]
      split
      case isTrue => exact ⟨rfl, eqvGen_append_left same others⟩
      case isFalse =>
        split
        case isTrue => exact ⟨rfl, eqvGen_append_left same others⟩
        case isFalse => exact ⟨rfl, eqvGen_append_left same (first :: others)⟩

/-! ## Slashes behind a directory -/

def slashes (count : Nat) : String :=
  String.ofList (List.replicate count '/')

theorem forwardSlashes_slashes (count : Nat) : forwardSlashes (slashes count) = slashes count := by
  apply forwardSlashes_of_not_mem
  simp [slashes]

theorem append_slashes_zero (path : String) : path ++ slashes 0 = path := by
  simp [slashes]

theorem slashes_succ (count : Nat) : slashes (count + 1) = "/" ++ slashes count := by
  simp [slashes, List.replicate_succ]

theorem slashes_slash (count : Nat) (rest : String) :
    slashes count ++ ("/" ++ rest) = "/" ++ (slashes count ++ rest) := by
  have turned : slashes count ++ "/" = "/" ++ slashes count := by
    simp [← String.toList_inj, slashes, ← List.replicate_succ, ← List.replicate_succ']
  rw [← String.append_assoc, turned, String.append_assoc]

theorem segments_empty : segments "" = [[]] := by
  decide

theorem segments_slash_append (rest : String) : segments ("/" ++ rest) = [] :: segments rest := by
  have alone := segments_slash "" rest
  rw [String.empty_append, segments_empty, List.singleton_append] at alone
  exact alone

theorem Drops.first (rest : List Segment) : Drops ([] :: rest) rest :=
  .empty [] rest

theorem drops_splitOn_slashes (count : Nat) (rest : String) :
    Relation.EqvGen Drops ((slashes count ++ rest).toList.splitOn '/')
      (rest.toList.splitOn '/') := by
  induction count with
  | zero =>
      have none : slashes 0 ++ rest = rest := by simp [slashes]
      rw [none]
      exact .refl _
  | succ count induction =>
      have split := splitOn_join "" (slashes count ++ rest)
      rw [String.empty_append] at split
      rw [slashes_succ, String.append_assoc, split]
      exact .trans _ _ _ (.rel _ _ (.first _)) induction

theorem drops_slashes (count : Nat) (rest : String) :
    Relation.EqvGen Drops (segments (slashes count ++ rest)) (segments rest) := by
  rw [segments, forwardSlashes_append, forwardSlashes_slashes]
  exact drops_splitOn_slashes count (forwardSlashes rest)

theorem slashes_behind (bare : String) (count : Nat) (file : String) :
    bare ++ slashes count ++ "/" ++ file = bare ++ "/" ++ (slashes count ++ file) := by
  simp only [String.append_assoc, slashes_slash]

theorem isRooted_slashes_behind {bare : String} {count : Nat}
    (something : bare ++ slashes count ≠ "") (rest : String) :
    isRooted (bare ++ slashes count) = isRooted (bare ++ "/" ++ rest) := by
  cases count with
  | zero =>
      rw [append_slashes_zero] at something ⊢
      exact (isRooted_join something).symm
  | succ count =>
      rw [slashes_succ, ← String.append_assoc, isRooted_slash, isRooted_slash _ rest]

/-! ## A name behind a cleaned path -/

theorem intercalate_concat {kept : List Segment} (something : kept ≠ []) (name : Segment) :
    ['/'].intercalate (kept ++ [name]) = ['/'].intercalate kept ++ '/' :: name := by
  induction kept with
  | nil => exact absurd rfl something
  | cons first rest induction =>
      cases rest with
      | nil => simp [List.intercalate_cons_cons]
      | cons next others =>
          have later := induction (List.cons_ne_nil next others)
          simp only [List.cons_append, List.intercalate_cons_cons, List.append_assoc] at later ⊢
          rw [later]

theorem clean_of_rooted {path : String} (rooted : isRooted path = true) :
    clean path = "/" ++ String.ofList (['/'].intercalate (cleanSegments path)) := by
  unfold clean
  dsimp only
  rw [if_pos rooted, ← String.toList_inj]
  simp

theorem clean_eq_dot {path : String} :
    clean path = "." ↔ isRooted path = false ∧ cleanSegments path = [] := by
  cases rooted : isRooted path with
  | true =>
      rw [clean_of_rooted rooted, ← String.toList_inj]
      simp
  | false =>
      rw [clean_of_relative rooted]
      split
      case isTrue nothing => simp [nothing]
      case isFalse something =>
        simp only [something, and_false, iff_false]
        intro dot
        have split := List.splitOn_intercalate '/' slash_not_mem_cleanSegments something
        rw [← String.toList_inj, String.toList_ofList] at dot
        rw [dot] at split
        have single : ['.'] ∈ cleanSegments path := by
          rw [← split]
          decide
        exact (mem_cleanSegments single).2.2 rfl

section Concat

variable {directory path name : String} (rooted : isRooted path = isRooted directory)

include rooted in
theorem cleanSegments_concat
    (same : Relation.EqvGen Drops (path.toList.splitOn '/')
      (directory.toList.splitOn '/' ++ [name.toList]))
    (isName : name.toList ∉ [[], ['.'], ascend]) :
    cleanSegments path = cleanSegments directory ++ [name.toList] := by
  unfold cleanSegments
  rw [rooted, foldl_pushSegment_congr same, List.foldl_append, List.foldl_cons, List.foldl_nil,
    pushSegment_name _ _ isName, List.reverse_cons]

variable (concat : cleanSegments path = cleanSegments directory ++ [name.toList])
include concat

theorem clean_ne_dot_of_concat : clean path ≠ "." := by
  intro dot
  have nothing := (clean_eq_dot.mp dot).2
  rw [concat] at nothing
  exact absurd nothing (by simp)

include rooted

theorem clean_concat (something : cleanSegments directory ≠ []) :
    clean path = clean directory ++ "/" ++ name := by
  have joined : String.ofList (['/'].intercalate (cleanSegments path)) =
      String.ofList (['/'].intercalate (cleanSegments directory)) ++ "/" ++ name := by
    rw [concat, intercalate_concat something, ← String.toList_inj]
    simp
  cases start : isRooted directory with
  | true =>
      rw [clean_of_rooted start, clean_of_rooted (rooted.trans start), joined]
      simp only [String.append_assoc]
  | false =>
      rw [clean_of_relative start, clean_of_relative (rooted.trans start), if_neg something, joined,
        if_neg (by simp [concat])]

theorem sameDirectory_clean_concat (start : String) :
    SameDirectory (start ++ "/" ++ clean path)
      ((if clean directory = "." then start else start ++ "/" ++ clean directory) ++
        "/" ++ name) := by
  split
  case isTrue dot =>
    rcases clean_eq_dot.mp dot with ⟨relative, nothing⟩
    have text : clean path = name := by
      rw [clean_of_relative (rooted.trans relative), concat, nothing, if_neg (by simp)]
      simp
    rw [text]
    exact .refl _
  case isFalse other =>
    by_cases nothing : cleanSegments directory = []
    · have atRoot : isRooted directory = true := by
        apply Decidable.byContradiction
        intro relative
        exact other (clean_eq_dot.mpr ⟨Bool.eq_false_iff.mpr relative, nothing⟩)
      have top : clean directory = "/" := by
        rw [clean_of_rooted atRoot, nothing]
        rfl
      have text : clean path = "/" ++ name := by
        rw [clean_of_rooted (rooted.trans atRoot), concat, nothing]
        simp
      have slashed : start ++ "/" ++ "/" ++ "/" ++ name =
          start ++ "/" ++ ("/" ++ ("/" ++ name)) := by
        simp only [String.append_assoc]
      -- The name hangs on the root of the root, where slashes are doubled once more.
      rw [top, text, slashed]
      apply SameDirectory.slash
      rw [segments_slash_append ("/" ++ name)]
      exact .symm _ _ (.rel _ _ (.first _))
    · rw [clean_concat rooted concat nothing, ← String.append_assoc, ← String.append_assoc]
      exact .refl _

end Concat

/-! ## A file in the output directory -/

/-- A path of a context that is read from its directory. -/
def below (base path : String) : String :=
  if base = "" then forwardSlashes path else base ++ "/" ++ forwardSlashes path

theorem anchor_of_free {base path : String} (free : isAnchored (forwardSlashes path) = false) :
    anchor base path =
      if clean (below base path) = "." then solutionRoot
      else solutionRoot ++ "/" ++ clean (below base path) := by
  unfold anchor
  dsimp only
  rw [free]
  rfl

theorem isRooted_below (base : String) {path other : String}
    (free : isAnchored (forwardSlashes path) = false)
    (otherFree : isAnchored (forwardSlashes other) = false) :
    isRooted (below base path) = isRooted (below base other) := by
  unfold below
  split
  case isTrue => rw [isRooted_of_not_anchored free, isRooted_of_not_anchored otherFree]
  case isFalse inside => rw [isRooted_join inside, isRooted_join inside]

theorem splitOn_below (base path : String) :
    (below base path).toList.splitOn '/' =
      (if base = "" then [] else base.toList.splitOn '/') ++ segments path := by
  unfold below
  split
  case isTrue => rw [List.nil_append, segments]
  case isFalse => exact splitOn_join _ _

end SolutionLists.Path
