import Mathlib.Data.List.Induction
import SolutionLists.Proofs.Classification.Buckets

namespace SolutionLists

/-! The order of the directories in a bucket. A directory keeps the place it is first put to: in
front, if it is a configuration file that shows it first, else at the end. Another configuration
file in it does not move it. -/

/-! ## Two elements of a list in their order -/

section Pairs

variable {α : Type} {first second : α}

theorem pair_sublist_append_iff {front back : List α} (absent : first ∉ front) :
    [first, second].Sublist (front ++ back) ↔ [first, second].Sublist back := by
  constructor
  · intro pair
    rcases List.sublist_append_iff.mp pair with ⟨inFront, inBack, parts, ofFront, ofBack⟩
    cases inFront with
    | nil => exact parts ▸ ofBack
    | cons head rest =>
        have same : first = head := (List.cons.inj parts).1
        exact absurd (ofFront.subset (same ▸ List.mem_cons_self)) absent
  · exact fun pair => pair.trans (List.sublist_append_right front back)

theorem pair_sublist_filter_iff {list : List α} {keeps : α → Bool} (keepsFirst : keeps first = true)
    (keepsSecond : keeps second = true) :
    [first, second].Sublist (list.filter keeps) ↔ [first, second].Sublist list := by
  constructor
  · exact fun pair => pair.trans List.filter_sublist
  · intro pair
    have kept := pair.filter keeps
    rwa [List.filter_cons_of_pos keepsFirst, List.filter_cons_of_pos keepsSecond] at kept

theorem pair_sublist_append {front back : List α} (inFront : first ∈ front)
    (inBack : second ∈ back) : [first, second].Sublist (front ++ back) :=
  (List.singleton_sublist.mpr inFront).append (List.singleton_sublist.mpr inBack)

end Pairs

namespace Classification

variable (root : String)

/-- The directories that files show, in the order in which they are first met. -/
def metDirectories (files : List File) : List String :=
  (files.map (includeDirectory root)).eraseDups

/-- Whether it is a configuration file that shows a directory first. -/
def metInConfig (files : List File) (directory : String) : Bool :=
  (files.find? (includeDirectory root · = directory)).any (·.isConfig)

theorem mem_metDirectories {files : List File} {directory : String} :
    directory ∈ metDirectories root files ↔
      ∃ file ∈ files, includeDirectory root file = directory := by
  rw [metDirectories, List.mem_eraseDups, List.mem_map]

theorem metDirectories_concat (files : List File) (file : File) :
    metDirectories root (files ++ [file]) =
      Ordered.insertLast (metDirectories root files) (includeDirectory root file) := by
  rw [metDirectories, metDirectories, ← Ordered.append_nil_left, ← Ordered.append_nil_left,
    List.map_append, Ordered.append_append]
  rfl

theorem metInConfig_concat {files : List File} {directory : String}
    (met : directory ∈ metDirectories root files) (file : File) :
    metInConfig root (files ++ [file]) directory = metInConfig root files directory := by
  rcases (mem_metDirectories root).mp met with ⟨giver, member, same⟩
  have found : (files.find? (includeDirectory root · = directory)).isSome = true :=
    List.find?_isSome.mpr ⟨giver, member, decide_eq_true same⟩
  rcases Option.isSome_iff_exists.mp found with ⟨first, atFirst⟩
  rw [metInConfig, metInConfig, List.find?_append, atFirst]
  rfl

theorem metInConfig_new {files : List File} {file : File}
    (new : includeDirectory root file ∉ metDirectories root files) :
    metInConfig root (files ++ [file]) (includeDirectory root file) = file.isConfig := by
  have missed : files.find? (includeDirectory root · = includeDirectory root file) = none := by
    apply List.find?_eq_none.mpr
    intro giver member same
    exact new ((mem_metDirectories root).mpr ⟨giver, member, of_decide_eq_true same⟩)
  rw [metInConfig, List.find?_append, missed]
  simp

theorem placeInclude_of_mem {file : File} {list : List String} {directory : String}
    (present : directory ∈ list) : placeInclude file list directory = list := by
  unfold placeInclude Ordered.insertFirst Ordered.insertLast
  rw [if_pos present, if_pos present, ite_self]

theorem placeInclude_of_not_mem {file : File} {list : List String} {directory : String}
    (absent : directory ∉ list) :
    placeInclude file list directory =
      if file.isConfig then directory :: list else list ++ [directory] := by
  unfold placeInclude Ordered.insertFirst Ordered.insertLast
  rw [if_neg absent, if_neg absent]

/-- The directories that configuration files show first come in front, the latest of them
first, and the others behind them. -/
theorem placed_eq (files : List File) :
    files.foldl (fun list file => placeInclude file list (includeDirectory root file)) [] =
      ((metDirectories root files).filter (metInConfig root files)).reverse ++
        (metDirectories root files).filter fun directory => !metInConfig root files directory := by
  induction files using List.reverseRecOn with
  | nil => rfl
  | append_singleton files file induction =>
      have kept : ∀ directory ∈ metDirectories root files,
          metInConfig root (files ++ [file]) directory = metInConfig root files directory :=
        fun directory met => metInConfig_concat root met file
      have front := List.filter_congr kept
      have back := List.filter_congr fun directory met => congrArg (!·) (kept directory met)
      have listed : includeDirectory root file ∈
          ((metDirectories root files).filter (metInConfig root files)).reverse ++
            ((metDirectories root files).filter
              fun directory => !metInConfig root files directory) ↔
          includeDirectory root file ∈ metDirectories root files := by
        cases first : metInConfig root files (includeDirectory root file) <;> simp [first]
      rw [List.foldl_append, induction, metDirectories_concat]
      by_cases met : includeDirectory root file ∈ metDirectories root files
      · rw [Ordered.insertLast_of_mem met, front, back]
        exact placeInclude_of_mem (listed.mpr met)
      · have new := metInConfig_new root met
        rw [Ordered.insertLast, if_neg met, List.filter_append, List.filter_append, front, back,
          List.foldl_cons, List.foldl_nil, placeInclude_of_not_mem (listed.not.mpr met)]
        cases config : file.isConfig with
        | true => simp [new, config]
        | false => simp [new, config]

/-! ## Buckets -/

theorem directories_eq (files : List File) (scope : Scope) (language : Language) :
    ((ofFiles root files).includes.get scope).get language =
      ((metDirectories root (filed files (.includes scope language))).filter
        (metInConfig root (filed files (.includes scope language)))).reverse ++
      (metDirectories root (filed files (.includes scope language))).filter fun directory =>
        !metInConfig root (filed files (.includes scope language)) directory := by
  let session : Session := { root, toolchain := "" }
  have placed := Bucket.contents_ofFiles root (.includes scope language) files session
  rw [Bucket.contents_empty Bucket.noConfusion] at placed
  exact placed.trans (placed_eq root _)

/-- A directory that is met comes before one that another file shows first in front of the
bucket, or where it is met before it. -/
theorem precedes_iff {givers : List File} {first second : String}
    (firstMet : first ∈ metDirectories root givers)
    (secondMet : second ∈ metDirectories root givers)
    (behind : metInConfig root givers second = false) :
    [first, second].Sublist
        (((metDirectories root givers).filter (metInConfig root givers)).reverse ++
          (metDirectories root givers).filter (!metInConfig root givers ·)) ↔
      metInConfig root givers first = true ∨
        [first, second].Sublist (metDirectories root givers) := by
  have inBack : second ∈ (metDirectories root givers).filter (!metInConfig root givers ·) :=
    List.mem_filter.mpr ⟨secondMet, by rw [behind]; rfl⟩
  cases front : metInConfig root givers first with
  | true =>
      have inFront : first ∈
          ((metDirectories root givers).filter (metInConfig root givers)).reverse :=
        List.mem_reverse.mpr (List.mem_filter.mpr ⟨firstMet, front⟩)
      exact iff_of_true (pair_sublist_append inFront inBack) (.inl rfl)
  | false =>
      have absent : first ∉
          ((metDirectories root givers).filter (metInConfig root givers)).reverse := by
        simp [front]
      have kept : [first, second].Sublist
            ((metDirectories root givers).filter (!metInConfig root givers ·)) ↔
          [first, second].Sublist (metDirectories root givers) :=
        pair_sublist_filter_iff (congrArg (!·) front) (congrArg (!·) behind)
      rw [pair_sublist_append_iff absent, kept]
      simp

theorem metInConfig_eq_false {givers : List File} {directory : String}
    (without : ∀ giver ∈ givers, includeDirectory root giver = directory →
      giver.isConfig = false) : metInConfig root givers directory = false := by
  rw [metInConfig, Option.any_eq_false]
  intro first found
  have here : includeDirectory root first = directory := by simpa using List.find?_some found
  simpa using without first (List.mem_of_find?_eq_some found) here

/-- In a bucket, the directories that configuration files show first come in front, the latest
of them first, and the others behind them in the order in which they are met. So a directory
with a configuration file comes before one without, unless another file showed it first and
it was met after the other one. -/
theorem config_directories_in_front (files : List File) (scope : Scope) (language : Language) :
    let givers := filed files (.includes scope language)
    let met := metDirectories root givers
    let directories := ((ofFiles root files).includes.get scope).get language
    directories = (met.filter (metInConfig root givers)).reverse ++
      met.filter (!metInConfig root givers ·) ∧
    ∀ config ∈ givers, config.isConfig = true → ∀ plain ∈ givers,
      (∀ other ∈ givers, includeDirectory root other = includeDirectory root plain →
        other.isConfig = false) →
      ([includeDirectory root config, includeDirectory root plain].Sublist directories ↔
        metInConfig root givers (includeDirectory root config) = true ∨
        [includeDirectory root config, includeDirectory root plain].Sublist met) := by
  intro givers met directories
  have whole : directories = (met.filter (metInConfig root givers)).reverse ++
      met.filter (!metInConfig root givers ·) := directories_eq root files scope language
  refine ⟨whole, ?_⟩
  intro config configMember _ plain plainMember without
  have isMet : ∀ giver ∈ givers, includeDirectory root giver ∈ met :=
    fun giver member => (mem_metDirectories root).mpr ⟨giver, member, rfl⟩
  rw [whole]
  exact precedes_iff root (isMet config configMember) (isMet plain plainMember)
    (metInConfig_eq_false root without)

private def defaultHeader : File := { path := "./headers/api.h", category := "header" }

private def configHeader : File :=
  { path := "./config/config.h", category := "header", attr := "config" }

/-- A header of the user beside the configuration, behind it in the list. -/
private def configuredFiles : List File :=
  [defaultHeader, configHeader, { path := "./config/user.h", category := "header" }]

theorem config_directories_in_front_apart :
    configHeader ∈ filed configuredFiles (.includes .interface .all) ∧
      defaultHeader ∈ filed configuredFiles (.includes .interface .all) ∧
      ["${SOLUTION_ROOT}/project/config", "${SOLUTION_ROOT}/project/headers"].Sublist
        (((ofFiles "project" configuredFiles).includes.get .interface).get .all) := by
  have configFiled : configHeader ∈ filed configuredFiles (.includes .interface .all) := by
    decide +kernel
  have defaultFiled : defaultHeader ∈ filed configuredFiles (.includes .interface .all) := by
    decide +kernel
  have alone : ∀ other ∈ filed configuredFiles (.includes .interface .all),
      includeDirectory "project" other = includeDirectory "project" defaultHeader →
        other.isConfig = false := by
    decide +kernel
  have first : metInConfig "project" (filed configuredFiles (.includes .interface .all))
      (includeDirectory "project" configHeader) = true := by
    decide +kernel
  refine ⟨configFiled, defaultFiled, ?_⟩
  exact ((config_directories_in_front "project" configuredFiles .interface .all).2 configHeader
    configFiled rfl defaultHeader defaultFiled alone).mpr (.inl first)

/-- A configuration file in a directory that another header showed before does not bring it to
the front. -/
theorem shown_config_directory_stays :
    ¬ ∀ (root : String) (files : List File) (scope : Scope) (language : Language),
      ∀ config ∈ filed files (.includes scope language), config.isConfig = true →
      ∀ plain ∈ filed files (.includes scope language),
      (∀ other ∈ filed files (.includes scope language),
        includeDirectory root other = includeDirectory root plain → other.isConfig = false) →
      [includeDirectory root config, includeDirectory root plain].Sublist
        (((ofFiles root files).includes.get scope).get language) := by
  intro always
  have first := always "project"
    [{ path := "./a/x.h", category := "header" }, { path := "./b/y.h", category := "header" },
      { path := "./b/config.h", category := "header", attr := "config" }] .interface .all
    { path := "./b/config.h", category := "header", attr := "config" } (by decide +kernel) rfl
    { path := "./a/x.h", category := "header" } (by decide +kernel) (by decide +kernel)
  exact absurd first (by decide +kernel)

end Classification

end SolutionLists
