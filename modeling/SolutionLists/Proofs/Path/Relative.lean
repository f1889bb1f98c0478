import SolutionLists.Path.Component
import SolutionLists.Proofs.Path.Spelling
import SolutionLists.Solution

namespace SolutionLists.Path

/-! The directory of a context is written as the way to it from the root of the solution,
and the paths of its files are hung on that root. Once the root has a value they lead to
the files that the description means. -/

/-! ## Segments that lead nowhere -/

instance : DecidablePred Stays := fun _ => inferInstanceAs (Decidable (_ ∧ _))

theorem eq_of_not_stays {segment : Segment} (nowhere : ¬ Stays segment) :
    segment = [] ∨ segment = ['.'] := by
  by_cases empty : segment = []
  · exact .inl empty
  · exact .inr (Decidable.byContradiction fun other => nowhere ⟨empty, other⟩)

theorem drops_filter_stays (segments : List Segment) :
    Relation.EqvGen Drops segments (segments.filter (Stays ·)) := by
  induction segments with
  | nil => exact .refl _
  | cons segment rest induction =>
      have later := eqvGen_append_left induction [segment]
      by_cases stays : Stays segment
      · rw [List.filter_cons, if_pos (by simpa using stays)]
        exact later
      · rw [List.filter_cons_of_neg (by simpa using stays)]
        apply Relation.EqvGen.trans _ _ _ later
        rcases eq_of_not_stays stays with rfl | rfl
        · exact .rel _ _ (.empty [] _)
        · exact .rel _ _ (.current [] _)

/-! ## Components -/

theorem ofSegment_of_stays {segment : Segment} (stays : Stays segment) :
    ∃ component, Component.ofSegment? segment = some component ∧
      component.toText = String.ofList segment := by
  have something : ¬ (segment = [] ∨ segment = ['.']) := not_or.mpr stays
  by_cases ascends : segment = ascend
  · subst ascends
    exact ⟨.above, rfl, rfl⟩
  · exact ⟨.name (String.ofList segment), by
      rw [Component.ofSegment?, if_neg something, if_neg ascends], rfl⟩

theorem ofSegment_of_not_stays {segment : Segment} (nowhere : ¬ Stays segment) :
    Component.ofSegment? segment = none :=
  if_pos (eq_of_not_stays nowhere)

theorem toText_filterMap (segments : List Segment) :
    (segments.filterMap Component.ofSegment?).map Component.toText =
      (segments.filter (Stays ·)).map String.ofList := by
  induction segments with
  | nil => rfl
  | cons segment rest induction =>
      by_cases stays : Stays segment
      · rcases ofSegment_of_stays stays with ⟨component, found, text⟩
        rw [List.filterMap_cons_some found, List.filter_cons, if_pos (by simpa using stays),
          List.map_cons, List.map_cons, text, induction]
      · rw [List.filterMap_cons_none (ofSegment_of_not_stays stays),
          List.filter_cons_of_neg (by simpa using stays), induction]

theorem components_slash (front rest : String) :
    components (front ++ "/" ++ rest) =
      components (front ++ "/") ++ (rest.toList.splitOn '/').filterMap Component.ofSegment? := by
  unfold components
  rw [isRooted_slash, splitOn_join, splitOn_slash]
  cases split : front.toList.splitOn '/' with
  | nil => exact absurd split (List.splitOn_ne_nil _ _)
  | cons first others => simp [Component.ofSegment?]

theorem components_trailing {path whole : String} {trailing : List Segment}
    (rooted : isRooted whole = isRooted path)
    (split : whole.toList.splitOn '/' = path.toList.splitOn '/' ++ trailing)
    (nowhere : ∀ segment ∈ trailing, ¬ Stays segment) : components whole = components path := by
  have none : trailing.filterMap Component.ofSegment? = [] := by
    apply List.filterMap_eq_nil_iff.mpr
    intro segment member
    exact ofSegment_of_not_stays (nowhere segment member)
  unfold components
  rw [rooted, split]
  cases chars : path.toList.splitOn '/' with
  | nil => exact absurd chars (List.splitOn_ne_nil _ _)
  | cons first others =>
      dsimp only [List.cons_append]
      rw [List.filterMap_append, none, List.append_nil]

theorem isRooted_trailing_slash {front : String} (inside : front ≠ "") :
    isRooted (front ++ "/") = isRooted front := by
  rw [← isRooted_slash front "", isRooted_join inside]

theorem components_trailing_slash {front : String} (inside : front ≠ "") :
    components (front ++ "/") = components front := by
  apply components_trailing (isRooted_trailing_slash inside) (splitOn_slash front)
  intro segment member stays
  exact stays.1 (List.mem_singleton.mp member)

/-! ## The way to a directory below another one -/

theorem exists_front_join {directory : String} (inside : directory ≠ "") :
    ∃ front, (∀ path, isRooted path = false → join directory path = front ++ "/" ++ path) ∧
      isRooted (front ++ "/") = isRooted directory ∧
      components (front ++ "/") = components directory := by
  have something : directory.isEmpty = false := by simpa using inside
  by_cases slash : directory.toList.getLast? = some '/'
  · rcases List.getLast?_eq_some_iff.mp slash with ⟨chars, whole⟩
    have front : String.ofList chars ++ "/" = directory := by
      rw [← String.toList_inj, whole]
      simp
    refine ⟨String.ofList chars, ?_, by rw [front], by rw [front]⟩
    intro path relative
    rw [front, join, relative, something]
    simp [slash]
  · refine ⟨directory, ?_, isRooted_trailing_slash inside, components_trailing_slash inside⟩
    intro path relative
    rw [join, relative, something]
    simp [slash]

theorem stepsFrom_append (base steps : List Component) :
    stepsFrom false base (base ++ steps) = some steps := by
  induction base with
  | nil => rw [List.nil_append, stepsFrom]
  | cons there rest induction =>
      rw [List.cons_append, stepsFrom, if_pos (by simp)]
      exact induction

theorem relativeTo_of_components {base path : String} {steps : List Component}
    (rooted : isRooted path = isRooted base)
    (below : components path = components base ++ steps) :
    relativeTo base path = "/".intercalate (steps.map Component.toText) := by
  rw [relativeTo, rooted, below, stepsFrom_append]
  simp

/-- The segments of a directory that lead somewhere. -/
def leading (directory : String) : List Segment :=
  (directory.toList.splitOn '/').filter (Stays ·)

theorem mem_leading {directory : String} {segment : Segment}
    (member : segment ∈ leading directory) : Stays segment ∧ '/' ∉ segment := by
  rcases List.mem_filter.mp member with ⟨inside, stays⟩
  exact ⟨of_decide_eq_true stays, fun slash => (mem_of_mem_splitOn inside '/' slash).2 rfl⟩

section Below

variable {root directory : String} (inside : root ≠ "") (relative : isRooted directory = false)
include inside relative

theorem isRooted_join_directory : isRooted (join root directory) = isRooted root := by
  rcases exists_front_join inside with ⟨front, whole, rooted, _⟩
  rw [whole directory relative, isRooted_slash, rooted]

theorem components_join : components (join root directory) =
    components root ++ (directory.toList.splitOn '/').filterMap Component.ofSegment? := by
  rcases exists_front_join inside with ⟨front, whole, _, start⟩
  rw [whole directory relative, components_slash, start]

theorem relativeTo_join :
    relativeTo root (join root directory) =
      String.ofList (['/'].intercalate (leading directory)) := by
  rw [relativeTo_of_components (isRooted_join_directory inside relative)
    (components_join inside relative), toText_filterMap, ← String.toList_inj,
    String.toList_intercalate]
  simp [leading, Function.comp_def]

theorem drops_relativeTo :
    Relation.EqvGen Drops (directory.toList.splitOn '/')
      ((relativeTo root (join root directory)).toList.splitOn '/') := by
  have kept : Relation.EqvGen Drops (directory.toList.splitOn '/') (leading directory) :=
    drops_filter_stays _
  rw [relativeTo_join inside relative, String.toList_ofList]
  by_cases nothing : leading directory = []
  · rw [nothing] at kept ⊢
    exact .trans _ _ _ kept (.symm _ _ (.rel _ _ (.empty [] [])))
  · rw [List.splitOn_intercalate '/' (fun _ member => (mem_leading member).2) nothing]
    exact kept

theorem isRooted_relativeTo : isRooted (relativeTo root (join root directory)) = false := by
  rw [relativeTo_join inside relative]
  apply isRooted_eq_false.mpr
  rw [String.toList_ofList]
  cases way : leading directory with
  | nil => simp
  | cons first rest =>
      have parts := mem_leading (way ▸ List.mem_cons_self : first ∈ leading directory)
      cases first with
      | nil => exact absurd rfl parts.1.1
      | cons char chars =>
          have other : char ≠ '/' := fun same => parts.2 (same ▸ List.mem_cons_self)
          cases rest <;> simpa [List.intercalate_cons_cons] using other

theorem not_mem_relativeTo (plain : '\\' ∉ directory.toList) :
    '\\' ∉ (relativeTo root (join root directory)).toList := by
  rw [relativeTo_join inside relative, String.toList_ofList]
  intro member
  rcases of_mem_intercalate member with same | ⟨segment, kept, present⟩
  · exact absurd same (by decide)
  · exact plain (mem_of_mem_splitOn (List.mem_filter.mp kept).1 _ present).1

end Below

/-! ## The directory of a file -/

theorem isRooted_of_splitOn {path : String} {before after : List Segment} {segment : Segment}
    (split : path.toList.splitOn '/' = before ++ segment :: after) (something : segment ≠ []) :
    isRooted path = true ↔ before.head? = some [] := by
  rw [isRooted_iff_splitOn, split]
  cases before with
  | nil => simp [something]
  | cons first rest => cases rest <;> simp

theorem not_stays {segment : Segment} : ¬ Stays segment ↔ segment = [] ∨ segment = ['.'] :=
  ⟨eq_of_not_stays, fun nowhere stays => nowhere.elim stays.1 stays.2⟩

theorem components_upTo {front : String} {before trailing : List Segment} {last : Segment}
    (split : front.toList.splitOn '/' = before ++ [last] ++ trailing) (stays : Stays last)
    (nowhere : ∀ segment ∈ trailing, ¬ Stays segment) :
    isRooted (String.ofList (['/'].intercalate (before ++ [last]))) = isRooted (front ++ "/") ∧
      components (String.ofList (['/'].intercalate (before ++ [last]))) =
        components (front ++ "/") := by
  have unsplit : ∀ segment ∈ before ++ [last], '/' ∉ segment := by
    intro segment member slash
    have inside : segment ∈ front.toList.splitOn '/' := by
      rw [split]
      exact List.mem_append_left trailing member
    exact (mem_of_mem_splitOn inside '/' slash).2 rfl
  have part : (String.ofList (['/'].intercalate (before ++ [last]))).toList.splitOn '/' =
      before ++ [last] := by
    rw [String.toList_ofList, List.splitOn_intercalate '/' unsplit (by simp)]
  have whole : (front ++ "/").toList.splitOn '/' =
      (before ++ [last]) ++ (trailing ++ [[]]) := by
    rw [splitOn_slash, split, List.append_assoc]
  have rooted : isRooted (front ++ "/") =
      isRooted (String.ofList (['/'].intercalate (before ++ [last]))) := by
    rw [Bool.eq_iff_iff, isRooted_of_splitOn part stays.1,
      isRooted_of_splitOn (by simpa using whole) stays.1]
  rw [← part] at whole
  refine ⟨rooted.symm, (components_trailing rooted whole ?_).symm⟩
  intro segment member
  rcases List.mem_append.mp member with inside | last
  · exact nowhere segment inside
  · exact not_stays.mpr (.inl (List.mem_singleton.mp last))

theorem components_of_nowhere {front : String}
    (nowhere : ∀ segment ∈ front.toList.splitOn '/', ¬ Stays segment) :
    isRooted (front ++ "/") = true ∧ components (front ++ "/") = components "/" ∨
      isRooted (front ++ "/") = false ∧ components (front ++ "/") = components "." ∧
        (front.toList.splitOn '/').head? = some ['.'] := by
  have whole := splitOn_slash front
  have rooting := isRooted_iff_splitOn (front ++ "/")
  rw [whole] at rooting
  cases split : front.toList.splitOn '/' with
  | nil => exact absurd split (List.splitOn_ne_nil _ _)
  | cons first rest =>
      rw [split] at nowhere whole rooting
      have none : (rest ++ [[]]).filterMap Component.ofSegment? = [] := by
        apply List.filterMap_eq_nil_iff.mpr
        intro segment member
        apply ofSegment_of_not_stays
        rcases List.mem_append.mp member with inside | last
        · exact nowhere segment (List.mem_cons_of_mem first inside)
        · exact not_stays.mpr (.inl (List.mem_singleton.mp last))
      unfold components
      rw [whole]
      dsimp only [List.cons_append]
      rw [none]
      rcases not_stays.mp (nowhere first List.mem_cons_self) with rfl | rfl
      · have rooted : isRooted (front ++ "/") = true := by
          apply rooting.mpr
          cases rest <;> simp
        exact .inl ⟨rooted, by rw [rooted]; decide⟩
      · have relative : isRooted (front ++ "/") = false := by
          apply Bool.eq_false_iff.mpr
          intro rooted
          rcases rooting.mp rooted with ⟨next, others, same⟩
          cases same
        exact .inr ⟨relative, by rw [relative]; decide, rfl⟩

/-- The directory of a file is the text in front of its name, less what leads nowhere at
the end. -/
theorem dropLastComponent_file {front name : String} (stays : Stays name.toList)
    (single : '/' ∉ name.toList) :
    ∃ above, dropLastComponent? (front ++ "/" ++ name) = some above ∧
      isRooted above = isRooted (front ++ "/") ∧ components above = components (front ++ "/") := by
  have file : (front ++ "/" ++ name).toList.splitOn '/' =
      front.toList.splitOn '/' ++ [name.toList] := by
    rw [splitOn_join, List.splitOn_eq_singleton single]
  have isName : ¬ (name.toList = [] ∨ name.toList = ['.']) := not_or.mpr stays
  rcases exists_trailing (fun segment => decide (segment = [] ∨ segment = ['.']))
    (front.toList.splitOn '/') with ⟨trailing, apart, passed⟩
  have nowhere : ∀ segment ∈ trailing, ¬ Stays segment := fun segment member =>
    not_stays.mpr (of_decide_eq_true (passed segment member))
  unfold dropLastComponent?
  dsimp only
  rw [file, List.reverse_append, List.reverse_singleton, List.singleton_append,
    List.dropWhile_cons_of_neg (by simpa using isName), isRooted_slash]
  dsimp only
  have stopped := List.head?_dropWhile_not
    (fun segment => decide (segment = [] ∨ segment = ['.'])) (front.toList.splitOn '/').reverse
  cases kept : (front.toList.splitOn '/').reverse.dropWhile
      (fun segment => decide (segment = [] ∨ segment = ['.'])) with
  | nil =>
      rw [kept, List.reverse_nil, List.nil_append] at apart
      rw [← apart] at nowhere
      dsimp only
      rcases components_of_nowhere nowhere with ⟨rooted, same⟩ | ⟨relative, same, first⟩
      · rw [rooted, if_pos rfl]
        exact ⟨"/", rfl, rfl, same.symm⟩
      · rw [relative, if_neg Bool.false_ne_true, List.getLast?_reverse, first]
        exact ⟨".", rfl, rfl, same.symm⟩
  | cons newest older =>
      rw [kept] at apart stopped
      rw [List.reverse_cons] at apart
      dsimp only
      rw [List.reverse_cons]
      exact ⟨_, rfl, components_upTo apart (not_or.mp (of_decide_eq_false stopped)) nowhere⟩

section Described

variable {root directory name : String} (inside : root ≠ "") (relative : isRooted directory = false)
  (stays : Stays name.toList) (single : '/' ∉ name.toList)
include inside relative stays single

/-- The directory of a file that is read from the root is the directory it is written with. -/
theorem dropLastComponent_join : ∃ above,
    dropLastComponent? (join root (if directory = "" then name else directory ++ "/" ++ name)) =
      some above ∧
    isRooted above = isRooted (join root directory) ∧
    components above = components (join root directory) := by
  rcases exists_front_join inside with ⟨front, whole, _, _⟩
  rw [whole directory relative]
  split
  case isTrue empty =>
    have unrooted : isRooted name = false :=
      isRooted_eq_false.mpr fun first => single (List.mem_of_head? first)
    rw [whole name unrooted, empty, String.append_empty]
    exact dropLastComponent_file stays single
  case isFalse something =>
    have unrooted : isRooted (directory ++ "/" ++ name) = false := by
      rw [isRooted_join something, relative]
    have front : front ++ "/" ++ directory ≠ "" := by simp
    rw [whole _ unrooted, ← String.append_assoc, ← String.append_assoc]
    rcases dropLastComponent_file stays single with ⟨above, found, rooted, same⟩
    refine ⟨above, found, ?_, ?_⟩
    · rw [rooted, isRooted_trailing_slash front]
    · rw [same, components_trailing_slash front]

theorem describe_root {reference : ContextReference}
    (written : reference.path = if directory = "" then name else directory ++ "/" ++ name)
    (context : Context) :
    (Solution.describe root reference context).root =
      forwardSlashes (relativeTo root (join root directory)) := by
  rcases dropLastComponent_join inside relative stays single with ⟨above, found, rooted, same⟩
  have start := isRooted_join_directory inside relative
  have below := components_join inside relative
  unfold Solution.describe Solution.contextPath
  dsimp only
  rw [written, found, Option.getD_some,
    relativeTo_of_components (rooted.trans start) (same.trans below),
    relativeTo_of_components start below]

end Described

/-! ## Paths with a value for the root -/

/-- What a path that hangs on the solution root stands for once the root has a value. -/
def atRoot (root path : String) : String :=
  match Text.stripStart? path solutionRoot with
  | some rest => root ++ rest
  | none => path

theorem atRoot_solutionRoot (root rest : String) :
    atRoot root (solutionRoot ++ rest) = root ++ rest := by
  have starts : Text.startsWith (solutionRoot ++ rest) solutionRoot = true := by
    simp [Text.startsWith]
  have behind : (solutionRoot ++ rest).toList.drop solutionRoot.length = rest.toList := by
    rw [String.toList_append, List.drop_left' String.length_toList]
  rw [atRoot, Text.stripStart?, if_pos starts, behind, String.ofList_toList]

/-- From the value of the root, a path that hangs on it leads where the path itself leads
from the directory of the context. -/
theorem clean_atRoot_anchor {root base file : String} (inside : root ≠ "")
    (relative : isRooted base = false) (free : isAnchored (forwardSlashes file) = false) :
    clean (atRoot root (anchor base file)) =
      clean (root ++ "/" ++
        (if base = "" then forwardSlashes file else base ++ "/" ++ forwardSlashes file)) := by
  unfold anchor
  dsimp only
  rw [free, if_neg Bool.false_ne_true]
  generalize path : (if base = "" then forwardSlashes file
    else base ++ "/" ++ forwardSlashes file) = joined
  have unrooted : isRooted joined = false := by
    rw [← path]
    split
    case isTrue => exact isRooted_of_not_anchored free
    case isFalse something => rw [isRooted_join something, relative]
  have cleaned := drops_clean unrooted
  split
  case isTrue dot =>
    have plain : atRoot root solutionRoot = root := by
      simpa using atRoot_solutionRoot root ""
    rw [plain]
    apply clean_congr (isRooted_join inside).symm
    rw [dot] at cleaned
    rw [splitOn_join]
    have nowhere : Drops (root.toList.splitOn '/' ++ [['.']]) (root.toList.splitOn '/') := by
      simpa using Drops.current (root.toList.splitOn '/') []
    exact .symm _ _ (.trans _ _ _ (eqvGen_append_left cleaned _) (.rel _ _ nowhere))
  case isFalse =>
    rw [String.append_assoc, atRoot_solutionRoot, ← String.append_assoc]
    apply clean_congr
    · rw [isRooted_join inside, isRooted_join inside]
    · rw [splitOn_join, splitOn_join]
      exact .symm _ _ (eqvGen_append_left cleaned _)

/-- From the directory of a context, spelled as the way down to it, a file is found where
the description has it. -/
theorem clean_below_relativeTo {root directory : String} (inside : root ≠ "")
    (relative : isRooted directory = false) (path : String) :
    clean (root ++ "/" ++ (if relativeTo root (join root directory) = "" then path
        else relativeTo root (join root directory) ++ "/" ++ path)) =
      clean (root ++ "/" ++ directory ++ "/" ++ path) := by
  have same := drops_relativeTo inside relative
  have front : root ++ "/" ++ directory ≠ "" := by simp
  apply clean_congr
  · rw [isRooted_join inside, isRooted_join front, isRooted_join inside]
  · rw [splitOn_join, splitOn_join, splitOn_join, List.append_assoc]
    apply eqvGen_append_left
    apply Relation.EqvGen.symm
    split
    case isTrue empty =>
      rw [empty] at same
      have gone := eqvGen_append_right same (path.toList.splitOn '/')
      exact .trans _ _ _ gone (.rel _ _ (.empty [] _))
    case isFalse =>
      rw [splitOn_join]
      exact eqvGen_append_right same _

theorem ne_empty_of_isAbsolute {path : String} (absolute : isAbsolute path = true) : path ≠ "" := by
  rintro rfl
  exact absurd absolute (by decide)

/-- With the root of the solution in place of its variable, a path of a context leads to the
file that the description means, from the directory that the index names. -/
theorem anchored_paths_lead_to_files (root directory : String) (absolute : isAbsolute root = true)
    (relative : isRooted directory = false) (plain : '\\' ∉ directory.toList) :
    let base := forwardSlashes (relativeTo root (join root directory))
    (∀ file, isAnchored (forwardSlashes file) = false →
      clean (atRoot root (anchor base file)) =
        clean (root ++ "/" ++ directory ++ "/" ++ forwardSlashes file)) ∧
    ∀ (reference : ContextReference) (context : Context) (name : String),
      Stays name.toList → '/' ∉ name.toList →
      reference.path = (if directory = "" then name else directory ++ "/" ++ name) →
      (Solution.describe root reference context).root = base := by
  intro base
  have inside := ne_empty_of_isAbsolute absolute
  have texts : base = relativeTo root (join root directory) :=
    forwardSlashes_of_not_mem (not_mem_relativeTo inside relative plain)
  constructor
  · intro file free
    rw [texts, clean_atRoot_anchor inside (isRooted_relativeTo inside relative) free]
    exact clean_below_relativeTo inside relative _
  · intro reference context name stays single written
    exact describe_root inside relative stays single written context

theorem anchored_paths_lead_to_files_shared :
    let root := "/work/../solution/"
    let base := (Solution.describe root { path := "../shared/./app/app.cbuild.yml" } {}).root
    base = "../shared/app" ∧
      clean (atRoot root (anchor base ".\\src\\..\\main.c")) =
        clean (root ++ "/" ++ "../shared/./app" ++ "/" ++ forwardSlashes ".\\src\\..\\main.c") ∧
      atRoot root (anchor base ".\\src\\..\\main.c") = "/work/../solution//../shared/app/main.c" := by
  intro root base
  have found := anchored_paths_lead_to_files root "../shared/./app" (by decide) (by decide) (by decide)
  have same := found.2 { path := "../shared/./app/app.cbuild.yml" } {} "app.cbuild.yml"
    (by decide) (by decide) (by decide)
  have down : base = "../shared/app" := same.trans (by decide)
  refine ⟨down, ?_, ?_⟩
  · rw [show base = _ from same]
    exact found.1 ".\\src\\..\\main.c" (by decide)
  · rw [down]
    decide

end SolutionLists.Path
