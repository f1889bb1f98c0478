import SolutionLists.Proofs.Classification.Buckets
import SolutionLists.Proofs.Languages

namespace SolutionLists

/-! What sorting a file list comes to. Every file that is neither there to be copied nor of
another category is in one bucket; a bucket holds what its files put there and nothing else,
and the order of the list shows in nothing but the order of the buckets. -/

def Session.beyondFiles (session : Session) : Session :=
  { session with languages := [], preIncludeGlobal := [] }

def Session.Finding.beyondFiles? : Session.Finding → Option Session.Finding
  | language _ | preInclude _ => none
  | finding => some finding

theorem Session.beyondFiles_note (session : Session) (finding : Session.Finding) :
    (session.note finding).beyondFiles =
      finding.beyondFiles?.elim session.beyondFiles session.beyondFiles.note := by
  cases finding with
  | language language =>
      rw [note, addLanguage]
      split <;> rfl
  | _ => rfl

namespace Classification

/-- What lies where once a list is sorted. -/
structure Partition (root : String) (files : List File) (sorted : Classification) : Prop where
  interface : sorted.interface = !files.any (·.isPlainSource)
  once : ∀ file ∈ files, file.isSorted = true → ∃! bucket, file ∈ filed files bucket
  others : ∀ file ∈ files, file.isSorted = false → ∀ bucket, file ∉ filed files bucket
  source : ∀ language, sorted.source.get language =
    (filed files (.source language)).map fun file => Path.anchor root file.path
  custom : ∀ language, sorted.custom.get language =
    (filed files (.custom language)).map fun file => Path.anchor root file.path
  library : sorted.library =
    (filed files .library).map fun file => Path.anchor root file.path
  object : sorted.object =
    (filed files .object).map fun file => Path.anchor root file.path
  preIncludeLocal : sorted.preIncludeLocal =
    (filed files .preIncludeLocal).map fun file => Path.anchor root file.path
  includes : ∀ scope language directory,
    directory ∈ (sorted.includes.get scope).get language ↔
      ∃ file ∈ files, file.isTemplate = false ∧ file.language = language ∧
        (if files.any (·.isPlainSource) then file.scope else .interface) = scope ∧
        (file.category ∈ ["header", "headerAsm", "headerC", "headerCpp"] ∧
            Path.anchor root (Path.parent file.path) = directory ∨
          file.category ∈ ["include", "includeAsm", "includeC", "includeCpp"] ∧
            Path.anchor root (Path.clean file.path) = directory)
  includes_once : ∀ scope language, ((sorted.includes.get scope).get language).Nodup
  filled : sorted.Filled

/-- What sorting a list adds to what is found out about a context. -/
structure Gains (files : List File) (session after : Session) : Prop where
  languages : after.languages = session.languages ++
    (((files.filter (·.isCompiled)).flatMap (·.language.known)).filter
      (· ∉ session.languages)).eraseDups
  single : ∀ language ∈ after.languages,
    language ∈ session.languages ∨ language ∈ [.asm, .c, .cxx]
  preIncludes : after.preIncludeGlobal = session.preIncludeGlobal ++
    (((filed files .preIncludeGlobal).map fun file => Path.anchor session.root file.path).filter
      (· ∉ session.preIncludeGlobal)).eraseDups
  others : after.beyondFiles = session.beyondFiles

/-- Two lists that are sorted to the same but for the order within the buckets. -/
structure SameBuckets (session : Session) (first second : List File) : Prop where
  interface : (ofFiles session.root first).interface = (ofFiles session.root second).interface
  contents : ∀ bucket : Bucket,
    (bucket.contents (ofFiles session.root first)
      (session.noteAll (findings session.root first))).Perm
    (bucket.contents (ofFiles session.root second)
      (session.noteAll (findings session.root second)))
  source : (ofFiles session.root first).source.keys = (ofFiles session.root second).source.keys
  custom : (ofFiles session.root first).custom.keys = (ofFiles session.root second).custom.keys
  includes : (ofFiles session.root first).includes.keys =
    (ofFiles session.root second).includes.keys
  languages : (session.noteAll (findings session.root first)).languages.Perm
    (session.noteAll (findings session.root second)).languages

variable (root : String)

/-! ## Buckets -/

theorem existsUnique_bucket {files : List File} {file : File} (member : file ∈ files)
    (sorted : file.isSorted = true) : ∃! bucket, file ∈ filed files bucket := by
  rw [← File.isSome_bucket? (!files.any (·.isPlainSource)), Option.isSome_iff_exists] at sorted
  rcases sorted with ⟨bucket, here⟩
  refine ⟨bucket, mem_filed.mpr ⟨member, here⟩, ?_⟩
  intro other filed
  exact Option.some.inj ((mem_filed.mp filed).2.symm.trans here)

theorem not_mem_filed {files : List File} {file : File} (unsorted : file.isSorted = false)
    (bucket : Bucket) : file ∉ filed files bucket := by
  intro filed
  rw [← File.isSome_bucket? (!files.any (·.isPlainSource)), (mem_filed.mp filed).2] at unsorted
  cases unsorted

/-- A header shows the directory that it lies in, an include file itself, to users alone where no
plain source is there. -/
theorem mem_includes {files : List File} {scope : Scope} {language : Language}
    {directory : String} :
    directory ∈ ((ofFiles root files).includes.get scope).get language ↔
      ∃ file ∈ files, file.isTemplate = false ∧ file.language = language ∧
        (if files.any (·.isPlainSource) then file.scope else .interface) = scope ∧
        (file.category ∈ ["header", "headerAsm", "headerC", "headerCpp"] ∧
            Path.anchor root (Path.parent file.path) = directory ∨
          file.category ∈ ["include", "includeAsm", "includeC", "includeCpp"] ∧
            Path.anchor root (Path.clean file.path) = directory) := by
  rw [mem_directories]
  simp only [mem_filed, and_assoc, ← File.role_eq_include_iff.1, ← File.role_eq_include_iff.2]
  refine exists_congr fun file => and_congr_right fun _ => ?_
  unfold File.bucket? includeDirectory
  cases file.isTemplate <;> cases files.any (·.isPlainSource) <;> cases file.role <;>
    cases file.hasCustomOptions <;> simp [and_assoc, and_comm, and_left_comm]

theorem partition_ofFiles (files : List File) : Partition root files (ofFiles root files) := by
  let session : Session := { root, toolchain := "" }
  have listed : ∀ bucket : Bucket, bucket.listsAll = true →
      bucket.contents (ofFiles root files) (session.noteAll (findings root files)) =
        (filed files bucket).map (bucket.entry root) :=
    fun bucket all => Bucket.contents_of_listsAll root bucket all files session
  constructor
  case interface => exact interface_ofFiles root files
  case once => exact fun file member sorted => existsUnique_bucket member sorted
  case others => exact fun file _ unsorted => not_mem_filed unsorted
  case source => exact fun language => listed (.source language) rfl
  case custom => exact fun language => listed (.custom language) rfl
  case library => exact listed .library rfl
  case object => exact listed .object rfl
  case preIncludeLocal => exact listed .preIncludeLocal rfl
  case includes => exact fun _ _ _ => mem_includes root
  case includes_once => exact nodup_directories root files
  case filled => exact filled_ofFiles root files

/-! ## What is found out -/

theorem beyondFiles_noteAll (session : Session) (files : List File) :
    (session.noteAll (findings root files)).beyondFiles = session.beyondFiles := by
  have unread : (findings root files).filterMap Session.Finding.beyondFiles? = [] :=
    filterMap_findings root (fun _ => rfl) (fun _ => rfl) files
  rw [Session.part_noteAll Session.beyondFiles_note, unread, List.foldl_nil]

theorem languages_noteAll_findings (session : Session) (files : List File) :
    (session.noteAll (findings root files)).languages =
      Ordered.append session.languages
        ((files.filter (·.isCompiled)).flatMap (·.language.known)) := by
  let put := fun (found : List Language) (language : Language) =>
    Ordered.append found language.known
  have noted : (session.noteAll (findings root files)).languages =
      ((findings root files).filterMap Session.Finding.language?).foldl put session.languages :=
    Session.part_noteAll Session.languages_note session _
  rw [noted, Target.languages_findings, Ordered.foldl_append, List.flatMap_map]

theorem gains_noteAll (session : Session) (files : List File) :
    Gains files session (session.noteAll (findings session.root files)) where
  languages := (languages_noteAll_findings session.root session files).trans
    (Ordered.append_eq _ _)
  single := by
    intro language member
    rw [languages_noteAll_findings, Ordered.mem_append] at member
    refine member.imp_right fun spoken => ?_
    rcases List.mem_flatMap.mp spoken with ⟨file, _, ofFile⟩
    exact Language.single_of_known ofFile
  preIncludes := (Bucket.preIncludes_ofFiles session.root files session).trans
    (Ordered.append_eq _ _)
  others := beyondFiles_noteAll session.root session files

/-! ## The order of the files -/

variable {root} {first second : List File} {session : Session}

theorem filed_perm (same : first.Perm second) (bucket : Bucket) :
    (filed first bucket).Perm (filed second bucket) := by
  unfold filed
  rw [same.any_eq]
  exact same.filter _

theorem contents_perm (same : first.Perm second) (bucket : Bucket) :
    (bucket.contents (ofFiles root first) (session.noteAll (findings root first))).Perm
      (bucket.contents (ofFiles root second) (session.noteAll (findings root second))) := by
  have members := filed_perm same bucket
  cases all : bucket.listsAll with
  | true =>
      rw [Bucket.contents_of_listsAll root bucket all, Bucket.contents_of_listsAll root bucket all]
      exact members.map _
  | false =>
      cases bucket with
      | preIncludeGlobal =>
          have entries := members.map fun file => Path.anchor root file.path
          refine (List.Perm.of_eq (Bucket.preIncludes_ofFiles root first session)).trans ?_
          refine (Ordered.perm_append entries).trans (List.Perm.of_eq ?_)
          exact (Bucket.preIncludes_ofFiles root second session).symm
      | includes scope language =>
          apply (List.perm_ext_iff_of_nodup (nodup_directories root first scope language)
            (nodup_directories root second scope language)).mpr
          intro directory
          simp only [mem_directories, members.mem_iff]
      | _ => cases all

theorem keys_perm {first second : LanguageMap} (firstFilled : first.Filled)
    (secondFilled : second.Filled)
    (same : ∀ language, (first.get language).Perm (second.get language)) :
    first.keys = second.keys := by
  rw [firstFilled.keys_eq, secondFilled.keys_eq]
  apply List.filter_congr
  intro language _
  rw [Bool.eq_iff_iff, decide_eq_true_iff, decide_eq_true_iff]
  rw [← List.length_pos_iff, ← List.length_pos_iff, (same language).length_eq]

theorem sameBuckets_perm (session : Session) (same : first.Perm second) :
    SameBuckets session first second := by
  have filledFirst := filled_ofFiles session.root first
  have filledSecond := filled_ofFiles session.root second
  have contents : ∀ bucket : Bucket,
      (bucket.contents (ofFiles session.root first)
        (session.noteAll (findings session.root first))).Perm
      (bucket.contents (ofFiles session.root second)
        (session.noteAll (findings session.root second))) := contents_perm same
  constructor
  case interface => rw [interface_ofFiles, interface_ofFiles, same.any_eq]
  case contents => exact contents
  case source =>
    exact keys_perm filledFirst.source filledSecond.source fun language =>
      contents (.source language)
  case custom =>
    exact keys_perm filledFirst.custom filledSecond.custom fun language =>
      contents (.custom language)
  case includes =>
    have scopes : ∀ scope, ((ofFiles session.root first).includes.get scope).keys =
        ((ofFiles session.root second).includes.get scope).keys :=
      fun scope => keys_perm (filledFirst.includes.get scope) (filledSecond.includes.get scope)
        fun language => contents (.includes scope language)
    rw [filledFirst.includes.keys_eq, filledSecond.includes.keys_eq]
    simp only [scopes]
  case languages =>
    rw [languages_noteAll_findings, languages_noteAll_findings]
    exact Ordered.perm_append ((same.filter _).flatMap_right _)

/-- Sorting parts a list of files: each file of a known category is in one bucket, the others
are in none, and no bucket holds anything else or is there for nothing. Besides, the context
gains the languages of the sources and the global pre-includes, each once, in the order in
which they are first met. In another order the same files fill the same buckets. -/
theorem sorting_parts_files (session : Session) (files : List File) :
    Partition session.root files (ofFiles session.root files) ∧
    Gains files session (session.noteAll (findings session.root files)) ∧
    ∀ order : List File, order.Perm files → SameBuckets session order files :=
  ⟨partition_ofFiles session.root files, gains_noteAll session files,
    fun _ same => sameBuckets_perm session same⟩

private def mixedSession : Session :=
  { root := "project", toolchain := "GCC", languages := [.cxx] }

/-- Sources that come twice, with options of their own, or for the user to copy, between two
headers, a pre-include and a text. -/
private def mixedFiles : List File :=
  [{ path := "inc/api.h", category := "header" },
    { path := "private/own.h", category := "headerC", scopeEntry := "private" },
    { path := "main.c", category := "sourceC" },
    { path := "README.md", category := "doc" },
    { path := "unit.c", category := "sourceC", delPath := ["inc"] },
    { path := "main.c", category := "sourceC" },
    { path := "startup.s", category := "source", attr := "template" },
    { path := "${PACK}/all.h", category := "preIncludeGlobal" }]

theorem sorting_parts_files_mixed :
    mixedFiles.reverse.Perm mixedFiles ∧
      (ofFiles "project" mixedFiles).source.get .c =
        ["${SOLUTION_ROOT}/project/main.c", "${SOLUTION_ROOT}/project/main.c"] ∧
      (ofFiles "project" mixedFiles).custom.get .c = ["${SOLUTION_ROOT}/project/unit.c"] ∧
      "${SOLUTION_ROOT}/project/inc" ∈
        ((ofFiles "project" mixedFiles).includes.get .shared).get .all ∧
      "${SOLUTION_ROOT}/project/private" ∈
        ((ofFiles "project" mixedFiles).includes.get .own).get .c ∧
      (mixedSession.noteAll (findings "project" mixedFiles)).languages = [.cxx, .c] ∧
      SameBuckets mixedSession mixedFiles.reverse mixedFiles := by
  rcases sorting_parts_files mixedSession mixedFiles with ⟨partition, gains, reordered⟩
  have reversed := mixedFiles.reverse_perm
  exact ⟨reversed, (partition.source .c).trans (by decide), (partition.custom .c).trans (by decide),
    (partition.includes .shared .all _).mpr (by decide),
    (partition.includes .own .c _).mpr (by decide), gains.languages.trans (by decide),
    reordered _ reversed⟩

end Classification

end SolutionLists
