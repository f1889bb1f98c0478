import Mathlib.Data.List.Basic
import Mathlib.Logic.Relation
import SolutionLists.Files.Progress
import SolutionLists.Proofs.Files.Walk

namespace SolutionLists.FileTree

/-! Trees that grow. Saving files enters them one after the other, and directories on their
way where nothing is: whatever else is there stays. -/

/-! ## Entries -/

theorem lookup_map_at (entries : List (Place × FileEntry)) (place other : Place)
    (entry : FileEntry) :
    (entries.map fun (key, old) => (key, if key = place then entry else old)).lookup other =
      if other = place then (entries.lookup other).map fun _ => entry
      else entries.lookup other := by
  induction entries with
  | nil => simp
  | cons head rest induction =>
      rcases head with ⟨key, old⟩
      rw [List.map_cons, List.lookup_cons, List.lookup_cons]
      by_cases here : other = key
      · subst here
        by_cases same : other = place <;> simp [same]
      · have test : (other == key) = false := beq_eq_false_iff_ne.mpr here
        simpa [test] using induction

theorem lookup_isSome (entries : List (Place × FileEntry)) (place : Place) :
    (entries.lookup place).isSome = entries.any fun entry => decide (entry.1 = place) := by
  induction entries with
  | nil => rfl
  | cons head rest induction =>
      rcases head with ⟨key, old⟩
      rw [List.lookup_cons, List.any_cons]
      by_cases here : place = key
      · simp [here]
      · have test : (place == key) = false := beq_eq_false_iff_ne.mpr here
        have apart : ¬ key = place := fun same => here same.symm
        simp [test, apart, induction]

variable {tree : FileTree} {place other : Place} {entry : FileEntry}

theorem find_of_ne_root (below : place ≠ []) : tree.find? place = tree.entries.lookup place := by
  cases place with
  | nil => exact absurd rfl below
  | cons name above => rfl

theorem find_put (below : place ≠ []) :
    (tree.put place entry).find? other = if other = place then some entry else tree.find? other := by
  cases other with
  | nil => rw [if_neg below.symm]; rfl
  | cons name above =>
      change List.lookup _ (put tree place entry).entries = ite _ _ (List.lookup _ tree.entries)
      have present := lookup_isSome tree.entries place
      unfold put
      dsimp only
      split
      case isTrue there =>
        rw [lookup_map_at]
        split
        case isTrue same =>
          rw [there] at present
          rcases Option.isSome_iff_exists.mp present with ⟨old, found⟩
          rw [same, found]
          rfl
        case isFalse => rfl
      case isFalse absent =>
        rw [Bool.eq_false_iff.mpr absent] at present
        rw [List.lookup_append]
        split
        case isTrue same =>
          have none := Option.isNone_iff_eq_none.mp (Option.isSome_eq_false_iff.mp present)
          rw [same, none]
          simp
        case isFalse apart =>
          have test : (name :: above == place) = false := beq_eq_false_iff_ne.mpr apart
          simp [List.lookup_cons, test]

def isFileAt (tree : FileTree) (place : Place) : Bool :=
  match tree.find? place with
  | some (.file _) => true
  | _ => false

def children (tree : FileTree) (place : Place) : List String :=
  tree.entries.filterMap fun
    | (name :: above, _) => if above = place then some name else none
    | ([], _) => none

theorem names_eq_ok {path : String} {list : List String} : tree.names path = .ok list ↔
    ∃ place, tree.look path = .ok (place, .directory) ∧ list = tree.children place := by
  unfold names
  split
  case h_1 fault failed => simp [failed]
  case h_2 place text found => simp [found]
  case h_3 place found =>
    simp only [found, Except.ok.injEq, Prod.mk.injEq, and_true]
    exact ⟨fun same => ⟨place, rfl, same.symm⟩, fun ⟨_, here, same⟩ => here ▸ same.symm⟩

theorem children_put {root : Place} {counts : String → Bool} (below : place ≠ [])
    (known : place.tail = root → place.head?.any counts = true →
      (tree.find? place).isSome = true) :
    ((tree.put place entry).children root).filter counts =
      (tree.children root).filter counts := by
  unfold put children
  dsimp only
  split
  case isTrue =>
    rw [List.filterMap_map]
    refine congrArg (List.filter counts) (List.filterMap_congr fun head _ => ?_)
    rcases head with ⟨_ | ⟨name, above⟩, old⟩ <;> rfl
  case isFalse absent =>
    rw [find_of_ne_root below, lookup_isSome, Bool.eq_false_iff.mpr absent] at known
    rw [List.filterMap_append, List.filter_append]
    cases place with
    | nil => exact absurd rfl below
    | cons name above =>
        by_cases inside : above = root
        · have unseen : counts name = false :=
            Bool.eq_false_iff.mpr fun seen => absurd (known inside seen) Bool.false_ne_true
          simp [inside, unseen]
        · simp [inside]

/-! ## Growth -/

/-- One thing is entered where there is room for it. -/
inductive Enters (files directories : List Place) : FileTree → FileTree → Prop where
  | file {tree : FileTree} {place : Place} (text : String) (member : place ∈ files)
      (free : tree.isDirectoryAt place = false) :
      Enters files directories tree (tree.put place (.file text))
  | directory {tree : FileTree} {place : Place} (member : place ∈ directories)
      (free : tree.find? place = none) :
      Enters files directories tree (tree.put place .directory)

/-- Files have been entered at some places, and new directories at others. -/
def Grows (files directories : List Place) : FileTree → FileTree → Prop :=
  Relation.ReflTransGen (Enters files directories)

theorem ne_root_of_isDirectoryAt (free : tree.isDirectoryAt place = false) : place ≠ [] := by
  rintro rfl
  cases free

theorem isDirectoryAt_of_find_none (free : tree.find? place = none) :
    tree.isDirectoryAt place = false := by
  rw [isDirectoryAt, free]
  rfl

section Growth

variable {files directories : List Place} {next last : FileTree}

theorem Enters.ne_root (enters : Enters files directories tree next) :
    ∃ place entry, next = tree.put place entry ∧ place ≠ [] ∧ place ∈ files ++ directories := by
  cases enters with
  | file text member free =>
      exact ⟨_, _, rfl, ne_root_of_isDirectoryAt free, List.mem_append_left _ member⟩
  | directory member free =>
      exact ⟨_, _, rfl, ne_root_of_isDirectoryAt (isDirectoryAt_of_find_none free),
        List.mem_append_right _ member⟩

/-- How what is at a place may differ later: there is a file that has been entered, or a
directory where nothing was. -/
inductive Becomes (files directories : List Place) (place : Place) :
    Option FileEntry → Option FileEntry → Prop where
  | same (entry : Option FileEntry) : Becomes files directories place entry entry
  | file {entry : Option FileEntry} (text : String) (member : place ∈ files)
      (free : entry ≠ some .directory) :
      Becomes files directories place entry (some (.file text))
  | directory (member : place ∈ directories) :
      Becomes files directories place none (some .directory)

theorem Becomes.trans {first second third : Option FileEntry}
    (earlier : Becomes files directories place first second)
    (later : Becomes files directories place second third) :
    Becomes files directories place first third := by
  cases later with
  | same => exact earlier
  | file text member free =>
      cases earlier with
      | same => exact .file text member free
      | file _ _ earlier => exact .file text member earlier
      | directory => exact absurd rfl free
  | directory member =>
      cases earlier with
      | same => exact .directory member

theorem Enters.becomes (enters : Enters files directories tree next) (other : Place) :
    Becomes files directories other (tree.find? other) (next.find? other) := by
  cases enters with
  | file text member free =>
      rw [find_put (ne_root_of_isDirectoryAt free)]
      split
      case isTrue same =>
        rw [same]
        exact .file text member (of_decide_eq_false free)
      case isFalse => exact .same _
  | directory member free =>
      rw [find_put (ne_root_of_isDirectoryAt (isDirectoryAt_of_find_none free))]
      split
      case isTrue same =>
        rw [same, free]
        exact .directory member
      case isFalse => exact .same _

namespace Grows

variable (grows : Grows files directories tree last)
include grows

theorem becomes (other : Place) :
    Becomes files directories other (tree.find? other) (last.find? other) := by
  induction grows with
  | refl => exact .same _
  | tail _ enters induction => exact induction.trans (enters.becomes other)

theorem workingDirectory_eq : last.workingDirectory = tree.workingDirectory := by
  induction grows with
  | refl => rfl
  | tail _ enters induction =>
      rcases enters.ne_root with ⟨place, entry, rfl, _⟩
      exact induction

theorem placeOf_eq (path : String) : last.placeOf path = tree.placeOf path := by
  rw [placeOf, startOf, grows.workingDirectory_eq]
  rfl

theorem stops_eq (path : String) : last.stops path = tree.stops path := by
  rw [stops, startOf, grows.workingDirectory_eq]
  rfl

theorem isDirectoryAt_of (directory : tree.isDirectoryAt place = true) :
    last.isDirectoryAt place = true := by
  have becomes := grows.becomes place
  rw [of_decide_eq_true directory] at becomes
  unfold isDirectoryAt
  generalize last.find? place = now at becomes ⊢
  cases becomes with
  | same => rfl
  | file _ _ free => exact absurd rfl free

theorem isDirectoryAt_cases (directory : last.isDirectoryAt place = true) :
    tree.isDirectoryAt place = true ∨ place ∈ directories := by
  have becomes := grows.becomes place
  rw [of_decide_eq_true directory] at becomes
  unfold isDirectoryAt
  generalize tree.find? place = old at becomes ⊢
  cases becomes with
  | same => exact .inl rfl
  | directory member => exact .inr member

theorem file_cases {text : String} (found : last.find? place = some (.file text)) :
    tree.find? place = some (.file text) ∨ place ∈ files := by
  have becomes := grows.becomes place
  rw [found] at becomes
  generalize tree.find? place = old at becomes ⊢
  cases becomes with
  | same => exact .inl rfl
  | file _ member => exact .inr member

theorem find_outside (apart : place ∉ files) : last.find? place = tree.find? place ∨
    place ∈ directories ∧ tree.find? place = none ∧ last.find? place = some .directory := by
  have becomes := grows.becomes place
  generalize last.find? place = now at becomes ⊢
  generalize tree.find? place = old at becomes ⊢
  cases becomes with
  | same => exact .inl rfl
  | file _ member => exact absurd member apart
  | directory member => exact .inr ⟨member, rfl, rfl⟩

theorem find_of_notMem (apart : place ∉ files) (found : tree.find? place = some entry) :
    last.find? place = some entry := by
  rcases grows.find_outside apart with same | ⟨_, none, _⟩
  · exact same.trans found
  · rw [found] at none
    cases none

theorem isSome_of (found : (tree.find? place).isSome = true) :
    (last.find? place).isSome = true := by
  have becomes := grows.becomes place
  generalize last.find? place = now at becomes ⊢
  generalize tree.find? place = old at becomes found
  cases becomes with
  | same => exact found
  | file => rfl
  | directory => rfl

/-- Of the names that count, nothing new lies directly in a directory where all of them
that may be entered are there. -/
theorem children_eq {root : Place} {counts : String → Bool}
    (known : ∀ place ∈ files ++ directories, place.tail = root → place.head?.any counts = true →
      (tree.find? place).isSome = true) :
    (last.children root).filter counts = (tree.children root).filter counts := by
  induction grows with
  | refl => rfl
  | tail grown enters induction =>
      rcases enters.ne_root with ⟨place, entry, rfl, below, member⟩
      rw [children_put below, induction]
      exact fun inside seen => Grows.isSome_of grown (known place member inside seen)

theorem walk_eq_ok_of {path : String} (walked : tree.walk path = .ok place) :
    last.walk path = .ok place := by
  rcases walk_eq_ok.mp walked with ⟨something, way, same⟩
  rw [walk_eq_ok, grows.stops_eq, grows.placeOf_eq]
  exact ⟨something, fun stop onWay => grows.isDirectoryAt_of (way stop onWay), same⟩

theorem look_eq_ok_of {path : String} (apart : place ∉ files)
    (found : tree.look path = .ok (place, entry)) : last.look path = .ok (place, entry) := by
  rcases look_eq_ok.mp found with ⟨walked, there⟩
  exact look_eq_ok.mpr ⟨grows.walk_eq_ok_of walked, grows.find_of_notMem apart there⟩

theorem read_eq_ok_of {path text : String} (apart : tree.placeOf path ∉ files)
    (held : tree.read path = .ok text) : last.read path = .ok text := by
  rcases read_eq_ok.mp held with ⟨place, found⟩
  rw [← (walk_eq_ok.mp (look_eq_ok.mp found).1).2.2] at apart
  exact read_eq_ok.mpr ⟨place, grows.look_eq_ok_of apart found⟩

/-- No file comes up at the end of a way, unless there is one already and directories have
been made on the way to it. -/
theorem isFile_eq_false_of {path : String} (apart : tree.placeOf path ∉ files)
    (way : tree.isFileAt (tree.placeOf path) = true →
      ∀ stop ∈ tree.stops path, stop ∈ directories → tree.isDirectoryAt stop = true)
    (unheld : tree.isFile path = false) : last.isFile path = false := by
  rw [Bool.eq_false_iff, Ne, isFile_iff] at unheld ⊢
  rintro ⟨text, held⟩
  rcases read_eq_ok.mp held with ⟨place, found⟩
  rcases look_eq_ok.mp found with ⟨walked, there⟩
  rcases walk_eq_ok.mp walked with ⟨something, passed, same⟩
  rw [grows.stops_eq] at passed
  rw [grows.placeOf_eq] at same
  rw [same] at there
  have before := (grows.file_cases there).resolve_right apart
  have passable : ∀ stop ∈ tree.stops path, tree.isDirectoryAt stop = true := by
    intro stop onWay
    rcases grows.isDirectoryAt_cases (passed stop onWay) with old | made
    · exact old
    · exact way (by rw [isFileAt, before]) stop onWay made
  have walkable := walk_eq_ok.mpr ⟨something, passable, rfl⟩
  exact unheld ⟨text, read_eq_ok.mpr ⟨_, look_eq_ok.mpr ⟨walkable, before⟩⟩⟩

end Grows

end Growth

/-! ## Changes that let a tree grow -/

section Changes

variable {files directories : List Place}

theorem makeDirectory_grows {path : String} {made : FileTree}
    (passed : tree.makeDirectory path = .ok made) (inside : tree.placeOf path ∈ directories) :
    Grows files directories tree made := by
  unfold makeDirectory at passed
  split at passed
  case h_1 => cases passed
  case h_2 place walked =>
    have same := (walk_eq_ok.mp walked).2.2
    rw [(withoutEnd_spec tree path).1] at same
    split at passed
    case h_1 => cases passed
    case h_2 free =>
      cases passed
      exact .single (.directory (same ▸ inside) free)

theorem makeDirectoriesWithin_grows (depth : Nat) {path : String}
    (inside : path = "" ∨ (tree.placeOf path ∈ directories ∧ tree.stops path ⊆ directories)) :
    Grows files directories tree (makeDirectoriesWithin depth tree path).tree := by
  induction depth generalizing path with
  | zero => exact .refl
  | succ depth induction =>
      unfold makeDirectoriesWithin
      dsimp only
      split
      case isTrue => exact .refl
      case isFalse something =>
        have target := inside.resolve_left something
        have settled : ∀ {grown made : FileTree}, Grows files directories tree grown →
            grown.makeDirectory path = .ok made → Grows files directories tree made :=
          fun grows passed =>
            grows.trans (makeDirectory_grows passed (grows.placeOf_eq path ▸ target.1))
        split
        case h_1 => exact .refl
        case h_2 above _ found =>
          have further : Grows files directories tree
              (makeDirectoriesWithin depth tree above).tree := by
            refine induction ?_
            rcases dropLastComponent_spec tree found with empty | ⟨onWay, way⟩
            · exact .inl empty
            · exact .inr ⟨target.2 onWay, List.Subset.trans way target.2⟩
          split
          case h_1 grown ready =>
            rw [ready] at further
            split
            case h_1 made passed => exact settled further passed
            case h_2 => exact further
          case h_2 => exact further
        case h_3 =>
          split
          case h_1 made passed => exact settled .refl passed
          case h_2 => exact .refl

theorem ensureDirectory_grows {path : String}
    (inside : path = "" ∨ (tree.placeOf path ∈ directories ∧ tree.stops path ⊆ directories)) :
    Grows files directories tree (tree.ensureDirectory path).tree := by
  unfold ensureDirectory
  split
  case isTrue => exact .refl
  case isFalse => exact makeDirectoriesWithin_grows _ inside

theorem write_eq_ok {path text : String} {written : FileTree}
    (passed : tree.write path text = .ok written) :
    ∃ place, tree.walk path = .ok place ∧ tree.isDirectoryAt place = false ∧
      written = tree.put place (.file text) := by
  unfold write at passed
  split at passed
  case h_1 => cases passed
  case h_2 place walked =>
    refine ⟨place, walked, ?_⟩
    unfold isDirectoryAt
    split at passed
    case h_1 => cases passed
    case h_2 found =>
      cases passed
      exact ⟨by rw [found]; rfl, rfl⟩
    case h_3 found =>
      split at passed
      case h_1 =>
        cases passed
        exact ⟨by rw [found]; rfl, rfl⟩
      case h_2 => cases passed
      case h_3 => cases passed

theorem write_grows (directories : List Place) {path text : String} {written : FileTree}
    (passed : tree.write path text = .ok written) (inside : tree.placeOf path ∈ files) :
    Grows files directories tree written ∧ written.read path = .ok text := by
  rcases write_eq_ok passed with ⟨place, walked, free, rfl⟩
  rw [← (walk_eq_ok.mp walked).2.2] at inside
  have grows : Grows files directories tree (tree.put place (.file text)) :=
    .single (.file text inside free)
  refine ⟨grows, read_eq_ok.mpr ⟨place, look_eq_ok.mpr ⟨grows.walk_eq_ok_of walked, ?_⟩⟩⟩
  rw [find_put (ne_root_of_isDirectoryAt free), if_pos rfl]

/-- Saving a file enters it, and directories on its way. Once it is saved the file holds its
text. -/
theorem update_grows (files directories : List Place) {path : String} (text : String)
    (inside : tree.placeOf path ∈ files) (way : tree.stops path ⊆ directories) :
    Grows files directories tree (tree.update path text).tree ∧
      ∀ changed, (tree.update path text).result = .ok changed →
        (tree.update path text).tree.read path = .ok text := by
  have settled : ∀ {prepared written : FileTree}, Grows files directories tree prepared →
      prepared.write path text = .ok written →
      Grows files directories tree written ∧ written.read path = .ok text := by
    intro prepared written grows passed
    rcases write_grows directories passed (grows.placeOf_eq path ▸ inside) with ⟨further, held⟩
    exact ⟨grows.trans further, held⟩
  have replaced : Grows files directories tree (update.replace path text tree).tree ∧
      ∀ changed, (update.replace path text tree).result = .ok changed →
        (update.replace path text tree).tree.read path = .ok text := by
    unfold update.replace
    cases found : Path.dropLastComponent? path with
    | none =>
        dsimp only
        split
        case h_1 written passed =>
          rcases settled .refl passed with ⟨grows, held⟩
          exact ⟨grows, fun _ _ => held⟩
        case h_2 => exact ⟨.refl, fun _ passed => by cases passed⟩
    | some above =>
        have prepared : Grows files directories tree (ensureDirectory tree above).tree := by
          refine ensureDirectory_grows ?_
          rcases dropLastComponent_spec tree found with empty | ⟨onWay, further⟩
          · exact .inl empty
          · exact .inr ⟨way onWay, List.Subset.trans further way⟩
        dsimp only
        split
        case h_1 => exact ⟨prepared, fun _ passed => by cases passed⟩
        case h_2 =>
          split
          case h_1 written passed =>
            rcases settled prepared passed with ⟨grows, held⟩
            exact ⟨grows, fun _ _ => held⟩
          case h_2 => exact ⟨prepared, fun _ passed => by cases passed⟩
  unfold update
  split
  case h_1 present held =>
    split
    case isTrue same => exact ⟨.refl, fun _ _ => same ▸ held⟩
    case isFalse => exact replaced
  case h_2 => exact replaced

/-! ## Many files -/

def placesOf (tree : FileTree) (list : List (String × String)) : List Place :=
  list.map fun file => tree.placeOf file.1

def waysOf (tree : FileTree) (list : List (String × String)) : List Place :=
  list.flatMap fun file => tree.stops file.1

theorem Grows.placesOf_eq {last : FileTree} (grows : Grows files directories tree last)
    (list : List (String × String)) : last.placesOf list = tree.placesOf list :=
  List.map_congr_left fun file _ => grows.placeOf_eq file.1

theorem Grows.waysOf_eq {last : FileTree} (grows : Grows files directories tree last)
    (list : List (String × String)) : last.waysOf list = tree.waysOf list :=
  List.flatMap_congr fun file _ => grows.stops_eq file.1

theorem Grows.mono {more others : List Place} {last : FileTree} (wider : files ⊆ more)
    (further : directories ⊆ others) (grows : Grows files directories tree last) :
    Grows more others tree last := by
  refine Relation.ReflTransGen.mono (fun before after enters => ?_) _ _ grows
  cases enters with
  | file text member free => exact .file text (wider member) free
  | directory member free => exact .directory (further member) free

theorem updateAll_grows (list : List (String × String)) :
    Grows (tree.placesOf list) (tree.waysOf list) tree (tree.updateAll list).tree := by
  induction list generalizing tree with
  | nil => exact .refl
  | cons file rest induction =>
      rcases file with ⟨path, text⟩
      have first := (update_grows (tree.placesOf ((path, text) :: rest))
        (tree.waysOf ((path, text) :: rest)) text List.mem_cons_self
        (List.subset_append_left _ _)).1
      have others := @induction (tree.update path text).tree
      rw [first.placesOf_eq, first.waysOf_eq] at others
      have both := first.trans (others.mono (List.subset_cons_self _ _)
        (List.subset_append_right _ _))
      unfold updateAll
      dsimp only
      split
      case h_1 => exact first
      case h_2 => exact both
      case h_3 => exact both

theorem read_updateAll {list : List (String × String)} (apart : (tree.placesOf list).Nodup)
    (saved : (tree.updateAll list).failure = none) :
    ∀ file ∈ list, (tree.updateAll list).tree.read file.1 = .ok file.2 := by
  induction list generalizing tree with
  | nil => exact List.forall_mem_nil _
  | cons file rest induction =>
      rcases file with ⟨path, text⟩
      rcases List.nodup_cons.mp apart with ⟨alone, restApart⟩
      rcases update_grows [tree.placeOf path] (tree.stops path) text
        List.mem_cons_self (List.Subset.refl _) with ⟨first, held⟩
      change tree.placeOf path ∉ tree.placesOf rest at alone
      change (tree.placesOf rest).Nodup at restApart
      rw [← first.placesOf_eq] at restApart alone
      rw [← first.placeOf_eq] at alone
      have later : ∀ changed, (tree.update path text).result = .ok changed →
          ((tree.update path text).tree.updateAll rest).failure = none →
          ∀ file ∈ (path, text) :: rest,
            ((tree.update path text).tree.updateAll rest).tree.read file.1 = .ok file.2 := by
        intro changed passed further
        refine List.forall_mem_cons.mpr ⟨?_, induction restApart further⟩
        exact (updateAll_grows rest).read_eq_ok_of alone (held changed passed)
      unfold updateAll at saved ⊢
      dsimp only at saved ⊢
      split at saved
      case h_1 => cases saved
      case h_2 passed =>
        exact later true passed saved
      case h_3 passed =>
        exact later false passed saved

theorem updateAll_of_read {list : List (String × String)}
    (held : ∀ file ∈ list, tree.read file.1 = .ok file.2) :
    (tree.updateAll list).tree = tree ∧ (tree.updateAll list).deeds = [] ∧
      (tree.updateAll list).failure = none := by
  induction list with
  | nil => exact ⟨rfl, rfl, rfl⟩
  | cons file rest induction =>
      rcases file with ⟨path, text⟩
      rcases List.forall_mem_cons.mp held with ⟨here, others⟩
      have settled : tree.update path text = ⟨tree, .ok false⟩ := by
        unfold update
        rw [here]
        exact if_pos rfl
      unfold updateAll
      rw [settled]
      exact induction others

end Changes

end SolutionLists.FileTree
