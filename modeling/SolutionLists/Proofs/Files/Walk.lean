import SolutionLists.Files.Tree
import SolutionLists.Proofs.Path.Relative

namespace SolutionLists.FileTree

/-! Where paths lead. A walk goes from directory to directory, and which ones these are is
told by the path alone. -/

def advance (place : Place) (segment : Path.Segment) : Place :=
  if segment = [] ∨ segment = ['.'] then place
  else if segment = Path.ascend then place.tail
  else String.ofList segment :: place

/-- The places that segments are read at, one after the other. -/
def stopsFrom (place : Place) : List Path.Segment → List Place
  | [] => []
  | segment :: rest => place :: stopsFrom (advance place segment) rest

def startOf (tree : FileTree) (path : String) : Place :=
  if Path.isRooted path then [] else tree.workingDirectory

def placeOf (tree : FileTree) (path : String) : Place :=
  (path.toList.splitOn '/').foldl advance (tree.startOf path)

/-- The places on the way of a walk, before each step. -/
def stops (tree : FileTree) (path : String) : List Place :=
  stopsFrom (tree.startOf path) (path.toList.splitOn '/')

variable {tree : FileTree}

theorem stopsFrom_append (place : Place) (first second : List Path.Segment) :
    stopsFrom place (first ++ second) =
      stopsFrom place first ++ stopsFrom (first.foldl advance place) second := by
  induction first generalizing place with
  | nil => rfl
  | cons segment rest induction => exact congrArg (place :: ·) (induction _)

/-! ## Walks -/

theorem step_eq_ok {place next : Place} {segment : Path.Segment} :
    tree.step place segment = .ok next ↔
      tree.isDirectoryAt place = true ∧ next = advance place segment := by
  unfold step isDirectoryAt advance
  cases tree.find? place with
  | none => simp
  | some entry =>
      cases entry with
      | file text => simp
      | directory =>
          dsimp only
          rw [decide_eq_true rfl, and_iff_right rfl]
          rw [← apply_ite, ← apply_ite, Except.ok.injEq, eq_comm]

theorem foldlM_step_eq_ok {segments : List Path.Segment} {place last : Place} :
    segments.foldlM tree.step place = .ok last ↔
      (∀ stop ∈ stopsFrom place segments, tree.isDirectoryAt stop = true) ∧
        last = segments.foldl advance place := by
  induction segments generalizing place with
  | nil =>
      rw [stopsFrom, and_iff_right (List.forall_mem_nil _), List.foldlM_nil]
      exact ⟨fun same => (Except.ok.inj same).symm, fun same => congrArg Except.ok same.symm⟩
  | cons segment rest induction =>
      rw [stopsFrom, List.forall_mem_cons, List.foldl_cons, List.foldlM_cons, and_assoc,
        ← induction]
      cases stepped : tree.step place segment with
      | error fault =>
          have stuck : ¬ tree.isDirectoryAt place = true := fun directory => by
            rw [step_eq_ok.mpr ⟨directory, rfl⟩] at stepped
            cases stepped
          exact ⟨fun same => (by cases same), fun ⟨directory, _⟩ => absurd directory stuck⟩
      | ok next =>
          rcases step_eq_ok.mp stepped with ⟨directory, rfl⟩
          exact (and_iff_right directory).symm

theorem walk_eq_ok {path : String} {place : Place} : tree.walk path = .ok place ↔
    path ≠ "" ∧ (∀ stop ∈ tree.stops path, tree.isDirectoryAt stop = true) ∧
      place = tree.placeOf path := by
  unfold walk
  split
  case isTrue empty => simp [empty]
  case isFalse something =>
    rw [and_iff_right something]
    exact foldlM_step_eq_ok

theorem look_eq_ok {path : String} {place : Place} {entry : FileEntry} :
    tree.look path = .ok (place, entry) ↔
      tree.walk path = .ok place ∧ tree.find? place = some entry := by
  unfold look
  cases tree.walk path with
  | error fault => simp
  | ok reached =>
      dsimp only
      cases found : tree.find? reached with
      | none =>
          simp only [reduceCtorEq, Except.ok.injEq, false_iff, not_and]
          rintro rfl
          simp [found]
      | some other =>
          simp only [Except.ok.injEq, Prod.mk.injEq]
          constructor
          · rintro ⟨rfl, rfl⟩
            exact ⟨rfl, found⟩
          · rintro ⟨rfl, same⟩
            exact ⟨rfl, Option.some.inj (found.symm.trans same)⟩

theorem read_eq_ok {path text : String} : tree.read path = .ok text ↔
    ∃ place, tree.look path = .ok (place, .file text) := by
  unfold read
  split
  case h_1 fault failed => simp [failed]
  case h_2 place found => simp [found]
  case h_3 place content found =>
    simp only [found, Except.ok.injEq, Prod.mk.injEq, FileEntry.file.injEq]
    exact ⟨fun same => ⟨place, rfl, same⟩, fun ⟨_, _, same⟩ => same⟩

theorem text_eq_of_placeOf_eq {first second text other : String}
    (same : tree.placeOf first = tree.placeOf second) (ofFirst : tree.read first = .ok text)
    (ofSecond : tree.read second = .ok other) : text = other := by
  rcases read_eq_ok.mp ofFirst with ⟨place, found⟩
  rcases read_eq_ok.mp ofSecond with ⟨place', found'⟩
  rcases look_eq_ok.mp found with ⟨walked, there⟩
  rcases look_eq_ok.mp found' with ⟨walked', there'⟩
  have here : place' = place :=
    (walk_eq_ok.mp walked').2.2.trans (same.symm.trans (walk_eq_ok.mp walked).2.2.symm)
  rw [here, there] at there'
  cases there'
  rfl

theorem isFile_iff {path : String} : tree.isFile path = true ↔
    ∃ text, tree.read path = .ok text := by
  unfold isFile read
  cases tree.look path with
  | error fault => simp
  | ok found =>
      rcases found with ⟨place, content⟩
      cases content <;> simp

/-! ## Shorter paths -/

theorem stops_of_splitOn (tree : FileTree) {first second : String} {more : List Path.Segment}
    (rooted : Path.isRooted second = Path.isRooted first)
    (split : second.toList.splitOn '/' = first.toList.splitOn '/' ++ more) :
    tree.stops second = tree.stops first ++ stopsFrom (tree.placeOf first) more ∧
      tree.placeOf second = more.foldl advance (tree.placeOf first) := by
  have start : tree.startOf second = tree.startOf first := by
    rw [startOf, rooted, startOf]
  unfold stops placeOf
  rw [start, split, stopsFrom_append, List.foldl_append]
  exact ⟨rfl, rfl⟩

theorem splitOn_trailing (front : List Char) (count : Nat) :
    (front ++ List.replicate count '/').splitOn '/' =
      front.splitOn '/' ++ List.replicate count [] := by
  induction count generalizing front with
  | zero => simp
  | succ count induction =>
      have more := induction []
      rw [List.nil_append] at more
      rw [List.replicate_succ, List.splitOn_append_cons_self, more]
      rfl

theorem foldl_advance_empty (place : Place) (count : Nat) :
    (List.replicate count []).foldl advance place = place := by
  induction count with
  | zero => rfl
  | succ count induction => exact induction

theorem withoutEnd_spec (tree : FileTree) (path : String) :
    tree.placeOf (withoutEnd path) = tree.placeOf path ∧
      tree.stops (withoutEnd path) ⊆ tree.stops path := by
  suffices added : ∃ count, Path.isRooted path = Path.isRooted (withoutEnd path) ∧
      path.toList.splitOn '/' =
        (withoutEnd path).toList.splitOn '/' ++ List.replicate count [] by
    rcases added with ⟨count, rooted, split⟩
    rcases stops_of_splitOn tree rooted split with ⟨stops, place⟩
    rw [stops, place, foldl_advance_empty]
    exact ⟨rfl, List.subset_append_left _ _⟩
  rcases Path.exists_trailing (fun char => decide (char = '/')) path.toList with
    ⟨trailing, whole, slashes⟩
  rw [List.eq_replicate_of_mem fun char inside => of_decide_eq_true (slashes char inside)] at whole
  unfold withoutEnd
  dsimp only
  split
  case isTrue bare =>
    rw [Bool.and_eq_true, decide_eq_true_iff, decide_eq_true_iff] at bare
    rw [bare.1, List.nil_append] at whole
    -- Of separators alone one is left, for the path has to begin with one.
    cases length : trailing.length with
    | zero =>
        rw [length] at whole
        exact absurd (String.toList_eq_nil_iff.mp whole) bare.2
    | succ count =>
        rw [length] at whole
        refine ⟨count, ?_, ?_⟩
        · rw [Path.isRooted, whole]
          rfl
        · rw [whole, ← List.nil_append (List.replicate _ _), splitOn_trailing]
          rfl
  case isFalse kept =>
    refine ⟨trailing.length, ?_, by rw [String.toList_ofList, ← splitOn_trailing, ← whole]⟩
    cases bare : (path.toList.reverse.dropWhile fun char => decide (char = '/')).reverse with
    | nil =>
        rw [bare] at kept
        have empty : path = "" := by simpa using kept
        rw [empty]
    | cons first rest =>
        rw [bare] at whole
        simp [Path.isRooted, whole]

theorem placeOf_mem_stopsFrom (place : Place) {segments : List Path.Segment}
    (more : segments ≠ []) : place ∈ stopsFrom place segments := by
  cases segments with
  | nil => exact absurd rfl more
  | cons segment rest => exact List.mem_cons_self

theorem upTo_spec (tree : FileTree) {path : String} {before after : List Path.Segment}
    {last : Path.Segment} (split : path.toList.splitOn '/' = before ++ last :: after)
    (something : last ≠ []) (more : after ≠ []) :
    let above := String.ofList (['/'].intercalate (before ++ [last]))
    tree.placeOf above ∈ tree.stops path ∧ tree.stops above ⊆ tree.stops path := by
  have unsplit : ∀ segment ∈ before ++ [last], '/' ∉ segment := by
    intro segment member slash
    have inside : segment ∈ path.toList.splitOn '/' := by
      rw [split, List.append_cons]
      exact List.mem_append_left after member
    exact (Path.mem_of_mem_splitOn inside '/' slash).2 rfl
  have part : (String.ofList (['/'].intercalate (before ++ [last]))).toList.splitOn '/' =
      before ++ [last] := by
    rw [String.toList_ofList, List.splitOn_intercalate '/' unsplit (by simp)]
  have rooted : Path.isRooted path =
      Path.isRooted (String.ofList (['/'].intercalate (before ++ [last]))) := by
    rw [Bool.eq_iff_iff, Path.isRooted_of_splitOn part something,
      Path.isRooted_of_splitOn split something]
  rw [List.append_cons, ← part] at split
  rw [(stops_of_splitOn tree rooted split).1]
  exact ⟨List.mem_append_right _ (placeOf_mem_stopsFrom _ more), List.subset_append_left _ _⟩

/-- The directory of a path, where it is one that is written, lies on the way of the path. -/
theorem dropLastComponent_spec (tree : FileTree) {path above : String}
    (found : Path.dropLastComponent? path = some above) :
    above = "" ∨ (tree.placeOf above ∈ tree.stops path ∧ tree.stops above ⊆ tree.stops path) := by
  have start : tree.startOf path ∈ tree.stops path :=
    placeOf_mem_stopsFrom _ (List.splitOn_ne_nil _ _)
  unfold Path.dropLastComponent? at found
  dsimp only at found
  split at found
  case h_1 =>
    split at found
    case isTrue => cases found
    case isFalse =>
      split at found
      case isTrue => cases found
      case isFalse => exact .inl (Option.some.inj found).symm
  case h_2 last older apart =>
    split at found
    case h_1 =>
      split at found
      case isTrue rooted =>
        cases found
        rw [startOf, if_pos rooted] at start
        have ofRoot : tree.stops "/" = [[], []] := rfl
        exact .inr ⟨start, by simp [ofRoot, start]⟩
      case isFalse relative =>
        split at found
        case h_1 =>
          cases found
          rw [startOf, if_neg relative] at start
          have ofHere : tree.stops "." = [tree.workingDirectory] := rfl
          exact .inr ⟨start, by simp [ofHere, start]⟩
        case h_2 => exact .inl (Option.some.inj found).symm
    case h_2 nonempty =>
      cases found
      rcases List.exists_cons_of_ne_nil nonempty with ⟨newest, oldest, kept⟩
      have stopped := List.head?_dropWhile_not
        (fun segment => decide (segment = [] ∨ segment = ['.'])) older
      rw [kept] at stopped
      rcases Path.exists_trailing (fun segment => decide (segment = [] ∨ segment = ['.']))
        (path.toList.splitOn '/') with ⟨behind, whole, _⟩
      rcases Path.exists_trailing (fun segment => decide (segment = [] ∨ segment = ['.']))
        older.reverse with ⟨between, front, _⟩
      rw [List.reverse_reverse, kept] at front
      have split : path.toList.splitOn '/' =
          oldest.reverse ++ newest :: (between ++ last :: behind) := by
        rw [whole, apart, List.reverse_cons, front]
        simp
      rw [kept, List.reverse_cons]
      exact .inr (upTo_spec tree split (not_or.mp (of_decide_eq_false stopped)).1 (by simp))

end SolutionLists.FileTree
