import Mathlib.Data.List.Sort
import Mathlib.Data.String.Basic
import SolutionLists.Proofs.Files.Growth
import SolutionLists.Proofs.Toolchain.Recorded
import SolutionLists.Proofs.Version.Written

namespace SolutionLists.Toolchain

/-! Configurations and installations are known by names that spell them. A name of a toolchain
may hold the marks that part it from the version, and still there is one way to read it. -/

/-! ## Numbers and names -/

/-- A text that writes a number with a place in a version. Zeros may stand in front. -/
def WritesPart (text : String) (value : Nat) : Prop :=
  value ≤ Version.largestPart ∧
    ∃ zeros, text = String.ofList (List.replicate zeros '0') ++ toString value

/-- Three texts that write the numbers of a release. -/
inductive Spells : String → String → String → Version → Prop
  | intro {first second third : String} {major minor patch : Nat}
      (writesMajor : WritesPart first major) (writesMinor : WritesPart second minor)
      (writesPatch : WritesPart third patch) :
      Spells first second third { major, minor, patch }

/-- A name that toolchains can have. -/
structure IsName (name : String) : Prop where
  something : name ≠ ""
  areWordChars : ∀ char ∈ name.toList, Text.isWordChar char = true

def AreDigits (text : String) : Prop :=
  ∀ char ∈ text.toList, Text.isDigit char = true

variable {name first second third : String} {version : Version}

theorem writesPart_iff {text : String} {value : Nat} :
    WritesPart text value ↔ Version.part? text.toList = some value := by
  rw [Version.part?_eq_some, Version.writesNumber_iff, WritesPart]
  refine and_congr_right fun _ => exists_congr fun zeros => ?_
  rw [← String.toList_inj, String.toList_append, String.toList_ofList]

theorem writesPart_toString {value : Nat} (fits : value ≤ Version.largestPart) :
    WritesPart (toString value) value :=
  ⟨fits, 0, by simp⟩

theorem spells_toString {major minor patch : Nat}
    (fit : ∀ number ∈ [major, minor, patch], number ≤ Version.largestPart) :
    Spells (toString major) (toString minor) (toString patch) { major, minor, patch } :=
  .intro (writesPart_toString (fit _ (by simp))) (writesPart_toString (fit _ (by simp)))
    (writesPart_toString (fit _ (by simp)))

theorem versionOf?_eq_some :
    versionOf? first.toList second.toList third.toList = some version ↔
      Spells first second third version := by
  unfold versionOf?
  constructor
  · intro read
    split at read
    case h_1 major minor patch readMajor readMinor readPatch =>
      cases read
      exact .intro (writesPart_iff.mpr readMajor) (writesPart_iff.mpr readMinor)
        (writesPart_iff.mpr readPatch)
    case h_2 => cases read
  · rintro ⟨writesMajor, writesMinor, writesPatch⟩
    rw [writesPart_iff.mp writesMajor, writesPart_iff.mp writesMinor,
      writesPart_iff.mp writesPatch]

theorem isWord_iff : isWord name.toList = true ↔ IsName name := by
  simp only [isWord, Bool.and_eq_true, decide_eq_true_eq, ne_eq, String.toList_eq_nil_iff,
    List.all_eq_true]
  exact ⟨fun parts => ⟨parts.1, parts.2⟩, fun isName => ⟨isName.something, isName.areWordChars⟩⟩

theorem AreDigits.not_mem {text : String} (digits : AreDigits text) {char : Char}
    (other : Text.isDigit char = false) : char ∉ text.toList := by
  intro inside
  rw [digits char inside] at other
  cases other

theorem WritesPart.areDigits {text : String} {value : Nat} (writes : WritesPart text value) :
    AreDigits text := by
  intro char inside
  have ascii := (Version.part?_eq_some.mp (writesPart_iff.mp writes)).areDigits char inside
  have bounds := Char.isDigit_iff_toNat.mp ascii
  have nine : '9'.toNat < 0x80 := by decide
  rw [Text.isDigit, if_pos (lt_of_le_of_lt bounds.2 nine)]
  exact ascii

theorem Spells.areDigits (spells : Spells first second third version) :
    ∀ number ∈ [first, second, third], AreDigits number := by
  rcases spells with ⟨writesMajor, writesMinor, writesPatch⟩
  simp only [List.forall_mem_cons]
  exact ⟨writesMajor.areDigits, writesMinor.areDigits, writesPatch.areDigits, nofun⟩

/-! ## Names with marks in them -/

theorem splitOn_behind (mark : Char) (front : List Char) {pieces : List (List Char)}
    (unmarked : ∀ piece ∈ pieces, mark ∉ piece) :
    (front ++ pieces.flatMap (mark :: ·)).splitOn mark = front.splitOn mark ++ pieces := by
  induction pieces generalizing front with
  | nil => simp
  | cons piece rest induction =>
      rw [List.forall_mem_cons] at unmarked
      have behind := induction piece unmarked.2
      rw [List.splitOn_eq_singleton unmarked.1] at behind
      rw [List.flatMap_cons, List.cons_append, List.splitOn_append_cons_self, behind]
      rfl

theorem splitOn_injective (mark : Char) {left right : List Char}
    (same : left.splitOn mark = right.splitOn mark) : left = right := by
  calc
    left = [mark].intercalate (left.splitOn mark) := (List.intercalate_splitOn mark).symm
    _ = [mark].intercalate (right.splitOn mark) := by rw [same]
    _ = right := List.intercalate_splitOn mark

def variableName (name major minor patch : String) : String :=
  name ++ "_TOOLCHAIN_" ++ major ++ "_" ++ minor ++ "_" ++ patch

def configName (name major minor patch : String) : String :=
  name ++ "." ++ major ++ "." ++ minor ++ "." ++ patch ++ ".cmake"

theorem splitOn_variableName (name : String)
    (unmarked : ∀ number ∈ [first, second, third], '_' ∉ number.toList) :
    (variableName name first second third).toList.splitOn '_' =
      name.toList.splitOn '_' ++
        [registrationMark, first.toList, second.toList, third.toList] := by
  have chars : (variableName name first second third).toList =
      name.toList ++ [registrationMark, first.toList, second.toList, third.toList].flatMap
        ('_' :: ·) := by
    have marked : "_TOOLCHAIN_".toList = '_' :: (registrationMark ++ ['_']) := by decide
    simp only [variableName, String.toList_append, marked]
    simp
  rw [chars]
  apply splitOn_behind
  have plain : '_' ∉ registrationMark := by decide
  simpa [plain] using unmarked

theorem splitOn_configName (name : String)
    (unmarked : ∀ number ∈ [first, second, third], '.' ∉ number.toList) :
    (configName name first second third).toList.splitOn '.' =
      name.toList.splitOn '.' ++
        [first.toList, second.toList, third.toList, ['c', 'm', 'a', 'k', 'e']] := by
  have chars : (configName name first second third).toList =
      name.toList ++ [first.toList, second.toList, third.toList,
        ['c', 'm', 'a', 'k', 'e']].flatMap ('.' :: ·) := by
    simp [configName]
  rw [chars]
  apply splitOn_behind
  simpa using unmarked

theorem ofVariableName?_variableName (isName : IsName name)
    (digits : ∀ number ∈ [first, second, third], AreDigits number) :
    ofVariableName? (variableName name first second third) =
      (versionOf? first.toList second.toList third.toList).map fun version => (name, version) := by
  have unmarked : ∀ number ∈ [first, second, third], '_' ∉ number.toList :=
    fun number member => (digits number member).not_mem (by decide)
  rw [ofVariableName?, splitOn_variableName name unmarked]
  simp only [List.reverse_append, List.reverse_cons, List.reverse_nil, List.nil_append,
    List.cons_append, List.reverse_reverse, List.intercalate_splitOn, String.ofList_toList]
  have something : (name.toList.splitOn '_').reverse ≠ [] :=
    mt List.reverse_eq_nil_iff.mp (List.splitOn_ne_nil _ _)
  rw [if_pos ⟨trivial, something, isWord_iff.mpr isName⟩]

theorem exists_variableName {text : String} (read : ofVariableName? text = some (name, version)) :
    IsName name ∧ ∃ first second third,
      text = variableName name first second third ∧ Spells first second third version := by
  unfold ofVariableName? at read
  split at read
  case h_2 => cases read
  case h_1 third second first mark rest pieces =>
    dsimp only at read
    split at read
    case isFalse => cases read
    case isTrue marked =>
      rcases marked with ⟨rfl, something, word⟩
      rcases Option.map_eq_some_iff.mp read with ⟨_, versioned, same⟩
      cases same
      have split : text.toList.splitOn '_' =
          rest.reverse ++ [registrationMark, first, second, third] := by
        rw [← List.reverse_reverse (text.toList.splitOn '_'), pieces]
        simp
      have unmarked : ∀ piece ∈ rest.reverse ++ [registrationMark, first, second, third],
          '_' ∉ piece := by
        intro piece member inside
        rw [← split] at member
        exact (Path.mem_of_mem_splitOn member '_' inside).2 rfl
      rw [List.forall_mem_append] at unmarked
      refine ⟨isWord_iff.mp (by simpa using word), String.ofList first, String.ofList second,
        String.ofList third, ?_, versionOf?_eq_some.mp (by simpa using versioned)⟩
      rw [← String.toList_inj]
      apply splitOn_injective '_'
      rw [splitOn_variableName _ (by simpa using (List.forall_mem_cons.mp unmarked.2).2), split]
      simp only [String.toList_ofList]
      rw [List.splitOn_intercalate '_' unmarked.1 (by simpa using something)]

theorem ofFileName?_configName (isName : IsName name)
    (digits : ∀ number ∈ [first, second, third], AreDigits number) :
    ofFileName? (configName name first second third) =
      (versionOf? first.toList second.toList third.toList).map fun version => (name, version) := by
  have unmarked : ∀ number ∈ [first, second, third], '.' ∉ number.toList :=
    fun number member => (digits number member).not_mem (by decide)
  have single : '.' ∉ name.toList := by
    intro inside
    exact absurd (isName.areWordChars '.' inside) (by decide)
  rw [ofFileName?, splitOn_configName name unmarked, List.splitOn_eq_singleton single]
  simp only [List.cons_append, List.nil_append, String.ofList_toList]
  rw [if_pos (isWord_iff.mpr isName)]

theorem exists_configName {text : String} (read : ofFileName? text = some (name, version)) :
    IsName name ∧ ∃ first second third,
      text = configName name first second third ∧ Spells first second third version := by
  unfold ofFileName? at read
  split at read
  case h_2 => cases read
  case h_1 chars first second third pieces =>
    split at read
    case isFalse => cases read
    case isTrue word =>
      rcases Option.map_eq_some_iff.mp read with ⟨_, versioned, same⟩
      cases same
      refine ⟨isWord_iff.mp (by simpa using word), String.ofList first, String.ofList second,
        String.ofList third, ?_, versionOf?_eq_some.mp (by simpa using versioned)⟩
      have whole : ['.'].intercalate (text.toList.splitOn '.') = text.toList :=
        List.intercalate_splitOn '.'
      rw [← String.toList_inj, ← whole, pieces]
      simp [configName, List.intercalate_cons_cons]

/-! ## What entries contribute -/

/-- A reading of entries by their titles, that are given after a scheme. -/
structure ReadsTitles {Entry : Type} (title place : Entry → String)
    (scheme : String → String → String → String → String)
    (reading : Entry → Option Toolchain) : Prop where
  /-- Any name with any three numbers is read back. -/
  numbered {entry : Entry} {name : String} {major minor patch : Nat} (isName : IsName name)
    (fit : ∀ number ∈ [major, minor, patch], number ≤ Version.largestPart)
    (titled : title entry = scheme name (toString major) (toString minor) (toString patch)) :
    reading entry = some { name, version := { major, minor, patch }, path := place entry }
  /-- Digits behind a name are read where they write numbers, and not at all where they do
  not. -/
  digits {entry : Entry} {name first second third : String} (isName : IsName name)
    (areDigits : ∀ number ∈ [first, second, third], AreDigits number)
    (titled : title entry = scheme name first second third) (toolchain : Toolchain) :
    reading entry = some toolchain ↔
      toolchain.name = name ∧ Spells first second third toolchain.version ∧
        toolchain.path = place entry
  /-- Nothing is read of any other title. -/
  titled {entry : Entry} {toolchain : Toolchain} (read : reading entry = some toolchain) :
    IsName toolchain.name ∧ toolchain.path = place entry ∧ ∃ first second third,
      title entry = scheme toolchain.name first second third ∧
        Spells first second third toolchain.version

section Reading

variable {Entry : Type} (title place : Entry → String)

/-- The toolchain that is read of the title of an entry. -/
def readTitle (decode : String → Option (String × Version)) (entry : Entry) : Option Toolchain :=
  (decode (title entry)).map fun (name, version) => { name, version, path := place entry }

theorem readTitle_eq_some {decode : String → Option (String × Version)} {entry : Entry}
    {toolchain : Toolchain} : readTitle title place decode entry = some toolchain ↔
      decode (title entry) = some (toolchain.name, toolchain.version) ∧
        toolchain.path = place entry := by
  rw [readTitle, Option.map_eq_some_iff]
  constructor
  · rintro ⟨⟨name, version⟩, decoded, rfl⟩
    exact ⟨decoded, rfl⟩
  · rintro ⟨decoded, located⟩
    refine ⟨_, decoded, ?_⟩
    rw [← located]

theorem readsTitles_readTitle {scheme : String → String → String → String → String}
    {decode : String → Option (String × Version)}
    (written : ∀ {name first second third}, IsName name →
      (∀ number ∈ [first, second, third], AreDigits number) →
      decode (scheme name first second third) =
        (versionOf? first.toList second.toList third.toList).map fun version => (name, version))
    (only : ∀ {text name version}, decode text = some (name, version) →
      IsName name ∧ ∃ first second third,
        text = scheme name first second third ∧ Spells first second third version) :
    ReadsTitles title place scheme (readTitle title place decode) := by
  have digits : ∀ {entry name first second third}, IsName name →
      (∀ number ∈ [first, second, third], AreDigits number) →
      title entry = scheme name first second third → ∀ toolchain : Toolchain,
      readTitle title place decode entry = some toolchain ↔
        toolchain.name = name ∧ Spells first second third toolchain.version ∧
          toolchain.path = place entry := by
    intro entry name first second third isName areDigits titled toolchain
    rw [readTitle_eq_some, titled, written isName areDigits, Option.map_eq_some_iff,
      ← versionOf?_eq_some]
    simp [and_assoc, and_left_comm, eq_comm]
  refine ⟨?numbered, digits, ?titled⟩
  case numbered =>
    intro entry name major minor patch isName fit titled
    have spells := spells_toString fit
    exact (digits isName spells.areDigits titled _).mpr ⟨rfl, spells, rfl⟩
  case titled =>
    intro entry toolchain read
    rcases (readTitle_eq_some title place).mp read with ⟨decoded, located⟩
    rcases only decoded with ⟨isName, found⟩
    exact ⟨isName, located, found⟩

end Reading

/-! ## Where configurations lie -/

section Directory

open SolutionLists.Path

/-- What lies in a directory is reached by its name, behind as many separators as one likes. -/
theorem walk_name {tree : FileTree} {directory name : String} {place : Place}
    (found : tree.look directory = .ok (place, .directory)) (plain : PlainName name) :
    tree.walk (withoutSeparators directory ++ "/" ++ name) = .ok (name :: place) := by
  rcases exists_withoutSeparators directory with ⟨count, ending⟩
  rcases FileTree.look_eq_ok.mp found with ⟨walked, isDirectory⟩
  rcases FileTree.walk_eq_ok.mp walked with ⟨something, passed, arrived⟩
  have rooted := isRooted_slashes_behind (ending ▸ something) name
  rw [← ending] at rooted
  have split : directory.toList.splitOn '/' =
      (withoutSeparators directory).toList.splitOn '/' ++ List.replicate count [] := by
    conv_lhs => rw [ending, slashes, String.toList_append, String.toList_ofList]
    exact FileTree.splitOn_trailing _ count
  have whole : (withoutSeparators directory ++ "/" ++ name).toList.splitOn '/' =
      (withoutSeparators directory).toList.splitOn '/' ++ [name.toList] := by
    rw [splitOn_join, List.splitOn_eq_singleton plain.single]
  rw [FileTree.stops, split, FileTree.stopsFrom_append, List.forall_mem_append] at passed
  rw [FileTree.placeOf, split, List.foldl_append, FileTree.foldl_advance_empty] at arrived
  apply FileTree.walk_eq_ok.mpr
  rw [FileTree.stops, FileTree.placeOf, FileTree.startOf, ← rooted, ← FileTree.startOf, whole,
    FileTree.stopsFrom_append, List.foldl_append, ← arrived]
  refine ⟨?something, ?passed, ?arrived⟩
  case something =>
    intro empty
    simpa using congrArg String.length empty
  case passed =>
    rw [List.forall_mem_append]
    refine ⟨passed.1, ?_⟩
    intro stop member
    rw [List.mem_singleton.mp member]
    exact decide_eq_true isDirectory
  case arrived =>
    have isName := plain.isName
    simp only [List.mem_cons, List.not_mem_nil, or_false, ← or_assoc, not_or] at isName
    rw [← not_or] at isName
    rw [List.foldl_cons, List.foldl_nil, FileTree.advance, if_neg isName.1, if_neg isName.2,
      String.ofList_toList]

end Directory

/-- Where the configuration of a file is, from where the directory of all of them is. -/
def configPath (compilerRoot fileName : String) : String :=
  withoutSeparators (Path.forwardSlashes compilerRoot) ++ "/" ++ fileName

theorem not_mem_configName {char : Char} (noWord : Text.isWordChar char = false)
    (noDigit : Text.isDigit char = false) (other : char ∉ ".cmake".toList) (isName : IsName name)
    (digits : ∀ number ∈ [first, second, third], AreDigits number) :
    char ∉ (configName name first second third).toList := by
  have noName : char ∉ name.toList := by
    intro inside
    rw [isName.areWordChars char inside] at noWord
    cases noWord
  have noNumber : ∀ number ∈ [first, second, third], char ∉ number.toList :=
    fun number member => (digits number member).not_mem noDigit
  have dot : char ∉ ".".toList := fun inside => other (List.mem_append_left "cmake".toList inside)
  simp only [List.forall_mem_cons] at noNumber
  simp only [configName, String.toList_append, List.mem_append, noName, noNumber.1, noNumber.2.1,
    noNumber.2.2.1, dot, other, or_self, not_false_eq_true]

theorem plainName_configName (isName : IsName name)
    (digits : ∀ number ∈ [first, second, third], AreDigits number) :
    Path.PlainName (configName name first second third) where
  isName := by
    have long : 6 ≤ (configName name first second third).toList.length := by
      have ending : ".cmake".length = 6 := by decide
      rw [String.length_toList, configName, String.length_append, ending]
      exact Nat.le_add_left 6 _
    intro member
    simp only [List.mem_cons, List.not_mem_nil, or_false] at member
    rcases member with same | same | same
    all_goals
      rw [same] at long
      exact absurd long (by decide)
  single := not_mem_configName (by decide) (by decide) (by decide) isName digits
  forward := not_mem_configName (by decide) (by decide) (by decide) isName digits

/-! ## Discovery -/

def ofVariable? : String × String → Option Toolchain :=
  readTitle Prod.fst (fun entry => Path.forwardSlashes entry.2) ofVariableName?

def ofFile? (compilerRoot : String) : String → Option Toolchain :=
  readTitle id (configPath compilerRoot) ofFileName?

theorem ofEntry?_eq_some {entry : ToolchainEntry} {toolchain : Toolchain} :
    ofEntry? entry = some toolchain ↔ toolchain.name = entry.name ∧
      Version.parse? entry.version = some toolchain.version ∧
        toolchain.path = Path.forwardSlashes entry.path := by
  unfold ofEntry?
  rw [Option.map_eq_some_iff]
  constructor
  · rintro ⟨version, parsed, rfl⟩
    exact ⟨rfl, parsed, rfl⟩
  · rintro ⟨named, parsed, located⟩
    refine ⟨_, parsed, ?_⟩
    rw [← named, ← located]

theorem discoverRegistered_eq (environment : List (String × String))
    (configuration : Configuration) :
    discoverRegistered environment configuration =
      environment.filterMap ofVariable? ++ configuration.toolchains.filterMap ofEntry? := rfl

theorem mergeSort_eq_of_perm {names sorted : List String} (permuted : sorted.Perm names)
    (ordered : sorted.Pairwise (· ≤ ·)) :
    names.mergeSort (fun first second => decide (first ≤ second)) = sorted :=
  ((List.mergeSort_perm names _).trans permuted.symm).eq_of_sortedLE List.sortedLE_mergeSort
    ordered.sortedLE

variable {tree : FileTree} {compilerRoot : String}

theorem exists_sorted (names : List String) :
    ∃ sorted : List String, sorted.Perm names ∧ sorted.Pairwise (· ≤ ·) :=
  ⟨names.mergeSort fun first second => decide (first ≤ second), List.mergeSort_perm _ _,
    List.sortedLE_mergeSort.pairwise⟩

theorem discoverConfigs_of_unlisted {fault : FileFault}
    (unlisted : tree.names compilerRoot = .error fault) :
    discoverConfigs tree compilerRoot =
      .error (.compilerRoot (Path.forwardSlashes compilerRoot)) := by
  rw [discoverConfigs, unlisted]

theorem discoverConfigs_of_listed {names sorted : List String}
    (listed : tree.names compilerRoot = .ok names) (permuted : sorted.Perm names)
    (ordered : sorted.Pairwise (· ≤ ·)) :
    discoverConfigs tree compilerRoot =
      if sorted.filterMap (ofFile? compilerRoot) = [] then
        .error (.noConfigFiles (Path.forwardSlashes compilerRoot))
      else .ok (sorted.filterMap (ofFile? compilerRoot)) := by
  have found : configsOf (Path.forwardSlashes compilerRoot) names =
      sorted.filterMap (ofFile? compilerRoot) := by
    rw [configsOf, mergeSort_eq_of_perm permuted ordered]
    rfl
  unfold discoverConfigs
  dsimp only
  rw [listed]
  dsimp only
  rw [found]
  split
  case h_1 nothing => rw [if_pos nothing]
  case h_2 something => rw [if_neg something]

theorem discoverConfigs_eq_ok {configs : List Toolchain} :
    discoverConfigs tree compilerRoot = .ok configs ↔ ∃ names, ∃ sorted : List String,
      tree.names compilerRoot = .ok names ∧ sorted.Perm names ∧ sorted.Pairwise (· ≤ ·) ∧
        configs = sorted.filterMap (ofFile? compilerRoot) ∧ configs ≠ [] := by
  constructor
  · intro passed
    cases listed : tree.names compilerRoot with
    | error fault =>
        rw [discoverConfigs_of_unlisted listed] at passed
        cases passed
    | ok names =>
        rcases exists_sorted names with ⟨sorted, permuted, ordered⟩
        rw [discoverConfigs_of_listed listed permuted ordered] at passed
        split at passed
        case isTrue => cases passed
        case isFalse something =>
          cases passed
          exact ⟨names, sorted, rfl, permuted, ordered, rfl, something⟩
  · rintro ⟨names, sorted, listed, permuted, ordered, rfl, something⟩
    rw [discoverConfigs_of_listed listed permuted ordered, if_neg something]

theorem discoverConfigs_eq_error {error : ToolchainError} :
    discoverConfigs tree compilerRoot = .error error ↔
      (error = .compilerRoot (Path.forwardSlashes compilerRoot) ∧
        ∃ fault, tree.names compilerRoot = .error fault) ∨
      (error = .noConfigFiles (Path.forwardSlashes compilerRoot) ∧
        ∃ names, tree.names compilerRoot = .ok names ∧
          ∀ fileName ∈ names, ofFile? compilerRoot fileName = none) := by
  constructor
  · intro failed
    cases listed : tree.names compilerRoot with
    | error fault =>
        rw [discoverConfigs_of_unlisted listed] at failed
        cases failed
        exact .inl ⟨rfl, fault, rfl⟩
    | ok names =>
        rcases exists_sorted names with ⟨sorted, permuted, ordered⟩
        rw [discoverConfigs_of_listed listed permuted ordered] at failed
        split at failed
        case isTrue nothing =>
          cases failed
          refine .inr ⟨rfl, names, rfl, ?_⟩
          intro fileName member
          exact List.filterMap_eq_nil_iff.mp nothing fileName (permuted.mem_iff.mpr member)
        case isFalse => cases failed
  · rintro (⟨rfl, fault, unlisted⟩ | ⟨rfl, names, listed, silent⟩)
    · exact discoverConfigs_of_unlisted unlisted
    · rcases exists_sorted names with ⟨sorted, permuted, ordered⟩
      have nothing : sorted.filterMap (ofFile? compilerRoot) = [] :=
        List.filterMap_eq_nil_iff.mpr fun fileName member =>
          silent fileName (permuted.mem_iff.mp member)
      rw [discoverConfigs_of_listed listed permuted ordered, if_pos nothing]

theorem walk_ofFile? {place : Place} {fileName : String} {toolchain : Toolchain}
    (found : tree.look compilerRoot = .ok (place, .directory))
    (forward : '\\' ∉ compilerRoot.toList)
    (read : ofFile? compilerRoot fileName = some toolchain) :
    tree.walk toolchain.path = .ok (fileName :: place) := by
  rcases (readTitle_eq_some _ _).mp read with ⟨decoded, located⟩
  rcases exists_configName decoded with ⟨isName, first, second, third, titled, spells⟩
  have plain := plainName_configName isName spells.areDigits
  rw [← titled, id] at plain
  rw [located, configPath, Path.forwardSlashes_of_not_mem forward]
  exact walk_name found plain

/-- The names of variables and of files decide what is discovered, in the order of the variables
and of the names of the files. Each contributes what its name spells or else nothing; nothing is
found only where the directory cannot be read or none of its files contributes. -/
theorem discovery_decodes_names (tree : FileTree) (compilerRoot : String)
    (environment : List (String × String)) (configuration : Configuration) :
    ∃ (registered : String × String → Option Toolchain)
      (declared : ToolchainEntry → Option Toolchain) (configured : String → Option Toolchain),
      ReadsTitles Prod.fst (fun entry => Path.forwardSlashes entry.2) variableName registered ∧
      (∀ entry toolchain, declared entry = some toolchain ↔ toolchain.name = entry.name ∧
        Version.parse? entry.version = some toolchain.version ∧
          toolchain.path = Path.forwardSlashes entry.path) ∧
      ReadsTitles id (configPath compilerRoot) configName configured ∧
      discoverRegistered environment configuration =
        environment.filterMap registered ++ configuration.toolchains.filterMap declared ∧
      (∀ configs, discoverConfigs tree compilerRoot = .ok configs ↔ ∃ names, ∃ sorted : List String,
        tree.names compilerRoot = .ok names ∧ sorted.Perm names ∧ sorted.Pairwise (· ≤ ·) ∧
          configs = sorted.filterMap configured ∧ configs ≠ []) ∧
      (∀ error, discoverConfigs tree compilerRoot = .error error ↔
        (error = .compilerRoot (Path.forwardSlashes compilerRoot) ∧
          ∃ fault, tree.names compilerRoot = .error fault) ∨
        (error = .noConfigFiles (Path.forwardSlashes compilerRoot) ∧
          ∃ names, tree.names compilerRoot = .ok names ∧
            ∀ fileName ∈ names, configured fileName = none)) ∧
      ∀ place, tree.look compilerRoot = .ok (place, .directory) → '\\' ∉ compilerRoot.toList →
        ∀ fileName toolchain, configured fileName = some toolchain →
          tree.walk toolchain.path = .ok (fileName :: place) := by
  refine ⟨ofVariable?, ofEntry?, ofFile? compilerRoot, ?_, ?_, ?_, ?_, ?_, ?_, ?_⟩
  · exact readsTitles_readTitle _ _ ofVariableName?_variableName exists_variableName
  · intro entry toolchain
    exact ofEntry?_eq_some
  · exact readsTitles_readTitle _ _ ofFileName?_configName exists_configName
  · exact discoverRegistered_eq environment configuration
  · intro configs
    exact discoverConfigs_eq_ok
  · intro error
    exact discoverConfigs_eq_error
  · intro place found forward fileName toolchain read
    exact walk_ofFile? found forward read

example : discoverRegistered
    [("A_TOOLCHAIN_1_2_3_TOOLCHAIN_004_5_6", "C:\\gcc"),
      ("A_TOOLCHAIN_1_2_18446744073709551616", "/gcc"), ("A_TOOLCHAIN_1_2_٣", "/gcc")] {} =
    [⟨"A_TOOLCHAIN_1_2_3", ⟨4, 5, 6, [], []⟩, "C:/gcc"⟩] := by
  decide +kernel

end SolutionLists.Toolchain
