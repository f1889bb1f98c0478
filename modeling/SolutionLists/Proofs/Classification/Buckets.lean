import Mathlib.Data.List.Basic
import SolutionLists.Proofs.Classification
import SolutionLists.Proofs.Filled
import SolutionLists.Proofs.Ordered

namespace SolutionLists

/-! The buckets that files are sorted to. A file goes to one bucket at most, so what lies in a
bucket in the end is what its own files put there, one after the other. -/

def sortedCategories : List String :=
  ["header", "headerAsm", "headerC", "headerCpp",
    "include", "includeAsm", "includeC", "includeCpp",
    "source", "sourceAsm", "sourceC", "sourceCpp",
    "library", "object", "preIncludeLocal", "preIncludeGlobal"]

def File.isSorted (file : File) : Bool :=
  !file.isTemplate && file.category ∈ sortedCategories

theorem File.role_eq_include_iff {file : File} :
    (file.role = .header ↔
      file.category ∈ ["header", "headerAsm", "headerC", "headerCpp"]) ∧
    (file.role = .includeDirectory ↔
      file.category ∈ ["include", "includeAsm", "includeC", "includeCpp"]) := by
  unfold File.role FileRole.ofCategory
  split_ifs <;> grind

theorem File.role_eq_other_iff {file : File} :
    file.role = .other ↔ file.category ∉ sortedCategories := by
  have split : file.category ∈ sortedCategories ↔
      file.category ∈ ["header", "headerAsm", "headerC", "headerCpp"] ∨
      file.category ∈ ["include", "includeAsm", "includeC", "includeCpp"] ∨
      file.category ∈ ["source", "sourceAsm", "sourceC", "sourceCpp"] ∨
      file.category = "library" ∨ file.category = "object" ∨
      file.category = "preIncludeLocal" ∨ file.category = "preIncludeGlobal" := by
    simp [sortedCategories, or_assoc]
  unfold File.role FileRole.ofCategory
  rw [split]
  split_ifs <;> simp_all

inductive Bucket where
  | source (language : Language)
  | custom (language : Language)
  | includes (scope : Scope) (language : Language)
  | library
  | object
  | preIncludeLocal
  | preIncludeGlobal
deriving DecidableEq, Repr

/-- Where a file goes, in a list whose includes are shown to users alone or not. -/
def File.bucket? (interface : Bool) (file : File) : Option Bucket :=
  if file.isTemplate then none
  else
    match file.role with
    | .source =>
        some (if file.hasCustomOptions then .custom file.language else .source file.language)
    | .header | .includeDirectory =>
        some (.includes (if interface then .interface else file.scope) file.language)
    | .library => some .library
    | .object => some .object
    | .preIncludeLocal => some .preIncludeLocal
    | .preIncludeGlobal => some .preIncludeGlobal
    | .other => none

theorem File.isSome_bucket? (interface : Bool) (file : File) :
    (file.bucket? interface).isSome = file.isSorted := by
  unfold bucket? isSorted
  cases template : file.isTemplate with
  | true => rfl
  | false =>
      have sorted : decide (file.category ∈ sortedCategories) = !decide (file.role = .other) := by
        simp [File.role_eq_other_iff]
      rw [sorted]
      cases role : file.role <;> rfl

theorem File.bucket?_eq_source {interface : Bool} {file : File} {language : Language} :
    file.bucket? interface = some (.source language) ↔
      (file.isCompiled && !file.hasCustomOptions && file.language = language) = true := by
  unfold bucket? isCompiled
  cases file.isTemplate with
  | true => simp
  | false => cases file.role <;> cases file.hasCustomOptions <;> simp

theorem File.bucket?_eq_custom {interface : Bool} {file : File} {language : Language} :
    file.bucket? interface = some (.custom language) ↔
      (file.isCompiled && file.hasCustomOptions && file.language = language) = true := by
  unfold bucket? isCompiled
  cases file.isTemplate with
  | true => simp
  | false => cases file.role <;> cases file.hasCustomOptions <;> simp

def filed (files : List File) (bucket : Bucket) : List File :=
  files.filter (·.bucket? (!files.any (·.isPlainSource)) = some bucket)

theorem mem_filed {files : List File} {bucket : Bucket} {file : File} :
    file ∈ filed files bucket ↔
      file ∈ files ∧ file.bucket? (!files.any (·.isPlainSource)) = some bucket := by
  rw [filed, List.mem_filter, decide_eq_true_iff]

theorem filed_ne_nil {files : List File} {bucket : Bucket} :
    filed files bucket ≠ [] ↔
      ∃ file ∈ files, file.bucket? (!files.any (·.isPlainSource)) = some bucket := by
  rw [← List.isEmpty_eq_false_iff, List.isEmpty_eq_false_iff_exists_mem]
  simp only [mem_filed]

theorem Session.preIncludeGlobal_addLanguage (session : Session) (language : Language) :
    (session.addLanguage language).preIncludeGlobal = session.preIncludeGlobal := by
  unfold addLanguage
  split <;> rfl

theorem any_or {α : Type} (list : List α) (first second : α → Bool) :
    (list.any fun element => first element || second element) =
      (list.any first || list.any second) := by
  induction list with
  | nil => rfl
  | cons head tail induction =>
      rw [List.any_cons, List.any_cons, List.any_cons, induction]
      ac_rfl

namespace Bucket

/-- What lies in a bucket. Global pre-includes are kept with what is found out about the
context. -/
def contents (sorted : Classification) (session : Session) : Bucket → List String
  | source language => sorted.source.get language
  | custom language => sorted.custom.get language
  | includes scope language => (sorted.includes.get scope).get language
  | library => sorted.library
  | object => sorted.object
  | preIncludeLocal => sorted.preIncludeLocal
  | preIncludeGlobal => session.preIncludeGlobal

/-- What a file puts into its bucket: headers and include files a directory, others their
path. -/
def entry (root : String) (bucket : Bucket) (file : File) : String :=
  match bucket with
  | includes .. => Classification.includeDirectory root file
  | _ => Path.anchor root file.path

/-- Put an entry into a bucket. Directories and global pre-includes are placed once. -/
def place (bucket : Bucket) (file : File) (list : List String) (entry : String) : List String :=
  match bucket with
  | includes .. => Classification.placeInclude file list entry
  | preIncludeGlobal => Ordered.insertLast list entry
  | _ => list ++ [entry]

variable (root : String)

theorem contents_add (sorted : Classification) (session : Session) (file : File)
    (bucket : Bucket) :
    bucket.contents (Classification.add root sorted file)
        (session.noteAll (Classification.finding? root file).toList) =
      if file.bucket? sorted.interface = some bucket then
        bucket.place file (bucket.contents sorted session) (bucket.entry root file)
      else bucket.contents sorted session := by
  unfold Classification.add Classification.finding? File.bucket?
  cases template : file.isTemplate with
  | true => simp
  | false =>
      cases role : file.role with
      | source =>
          cases custom : file.hasCustomOptions <;> cases bucket <;>
            simp [contents, place, entry, LanguageMap.get_update_of, Session.noteAll,
              Session.note, Session.preIncludeGlobal_addLanguage]
      | header | includeDirectory =>
          cases bucket <;>
            simp [contents, place, entry, ScopeMap.get_get_update, Classification.includeScope]
      | library => cases bucket <;> simp [contents, place, entry]
      | object => cases bucket <;> simp [contents, place, entry]
      | preIncludeLocal => cases bucket <;> simp [contents, place, entry]
      | preIncludeGlobal =>
          cases bucket <;> simp [contents, place, entry, Session.noteAll, Session.note]
      | other => simp

theorem contents_foldl (bucket : Bucket) (files : List File) (sorted : Classification)
    (session : Session) :
    bucket.contents (files.foldl (Classification.add root) sorted)
        (session.noteAll (Classification.findings root files)) =
      (files.filter (·.bucket? sorted.interface = some bucket)).foldl
        (fun list file => bucket.place file list (bucket.entry root file))
        (bucket.contents sorted session) := by
  induction files generalizing sorted session with
  | nil => rfl
  | cons file rest induction =>
      have told : Classification.findings root (file :: rest) =
          (Classification.finding? root file).toList ++ Classification.findings root rest := by
        unfold Classification.findings
        rw [List.filterMap_cons]
        cases Classification.finding? root file <;> rfl
      rw [told, Session.noteAll_append, List.foldl_cons, induction,
        Classification.interface_add, contents_add]
      by_cases here : file.bucket? sorted.interface = some bucket
      · rw [if_pos here, List.filter_cons_of_pos (by simpa using here), List.foldl_cons]
      · rw [if_neg here, List.filter_cons_of_neg (by simpa using here)]

theorem contents_ofFiles (bucket : Bucket) (files : List File) (session : Session) :
    bucket.contents (Classification.ofFiles root files)
        (session.noteAll (Classification.findings root files)) =
      (filed files bucket).foldl
        (fun list file => bucket.place file list (bucket.entry root file))
        (bucket.contents {} session) := by
  refine (contents_foldl root bucket files _ session).trans ?_
  cases bucket <;> rfl

/-! ## What the buckets hold -/

theorem contents_empty {bucket : Bucket} (ofList : bucket ≠ preIncludeGlobal)
    (session : Session) : bucket.contents {} session = [] := by
  cases bucket with
  | source language | custom language => cases language <;> rfl
  | includes scope language => cases scope <;> cases language <;> rfl
  | preIncludeGlobal => exact absurd rfl ofList
  | _ => rfl

/-- Whether a bucket lists all of its files, as often as they come. -/
def listsAll : Bucket → Bool
  | includes .. | preIncludeGlobal => false
  | _ => true

theorem mem_place {bucket : Bucket} {file : File} {list : List String} {entry other : String} :
    other ∈ bucket.place file list entry ↔ other ∈ list ∨ other = entry := by
  cases bucket with
  | includes scope language => exact Classification.mem_placeInclude
  | preIncludeGlobal => exact Ordered.mem_insertLast
  | _ => simp [place]

theorem nodup_place {bucket : Bucket} (once : bucket.listsAll = false) {list : List String}
    (nodup : list.Nodup) (file : File) (entry : String) :
    (bucket.place file list entry).Nodup := by
  cases bucket with
  | includes scope language =>
      unfold place Classification.placeInclude
      dsimp only
      split
      · exact Ordered.nodup_insertFirst nodup entry
      · exact Ordered.nodup_insertLast nodup entry
  | preIncludeGlobal => exact Ordered.nodup_insertLast nodup entry
  | _ => cases once

theorem mem_contents (bucket : Bucket) (files : List File) (session : Session) {entry : String} :
    entry ∈ bucket.contents (Classification.ofFiles root files)
        (session.noteAll (Classification.findings root files)) ↔
      entry ∈ bucket.contents {} session ∨
        ∃ file ∈ filed files bucket, bucket.entry root file = entry := by
  have grown : ∀ (filed : List File) (list : List String),
      entry ∈ filed.foldl (fun list file => bucket.place file list (bucket.entry root file)) list ↔
        entry ∈ list ∨ ∃ file ∈ filed, bucket.entry root file = entry := by
    intro filed
    induction filed with
    | nil => simp
    | cons file rest induction =>
        intro list
        rw [List.foldl_cons, induction, mem_place, or_assoc]
        simp [eq_comm]
  rw [contents_ofFiles]
  exact grown _ _

theorem mem_contents_of_list {bucket : Bucket} (ofList : bucket ≠ preIncludeGlobal)
    (files : List File) (session : Session) {entry : String} :
    entry ∈ bucket.contents (Classification.ofFiles root files)
        (session.noteAll (Classification.findings root files)) ↔
      ∃ file ∈ filed files bucket, bucket.entry root file = entry := by
  rw [mem_contents, contents_empty ofList]
  exact or_iff_right List.not_mem_nil

theorem contents_ne_nil {bucket : Bucket} (ofList : bucket ≠ preIncludeGlobal)
    (files : List File) (session : Session) :
    bucket.contents (Classification.ofFiles root files)
        (session.noteAll (Classification.findings root files)) ≠ [] ↔
      filed files bucket ≠ [] := by
  rw [← List.isEmpty_eq_false_iff, ← List.isEmpty_eq_false_iff,
    List.isEmpty_eq_false_iff_exists_mem, List.isEmpty_eq_false_iff_exists_mem]
  simp [mem_contents_of_list root ofList]

theorem nodup_contents {bucket : Bucket} (once : bucket.listsAll = false) {session : Session}
    (nodup : (bucket.contents {} session).Nodup) (files : List File) :
    (bucket.contents (Classification.ofFiles root files)
      (session.noteAll (Classification.findings root files))).Nodup := by
  rw [contents_ofFiles]
  generalize bucket.contents {} session = list at nodup
  induction filed files bucket generalizing list with
  | nil => exact nodup
  | cons file rest induction => exact induction _ (nodup_place once nodup file _)

theorem contents_of_listsAll (bucket : Bucket) (all : bucket.listsAll = true)
    (files : List File) (session : Session) :
    bucket.contents (Classification.ofFiles root files)
        (session.noteAll (Classification.findings root files)) =
      (filed files bucket).map (bucket.entry root) := by
  have nothing : bucket.contents {} session = [] := by
    apply contents_empty
    rintro rfl
    cases all
  have grown : ∀ (filed : List File) (list : List String),
      filed.foldl (fun list file => bucket.place file list (bucket.entry root file)) list =
        list ++ filed.map (bucket.entry root) := by
    intro filed
    induction filed with
    | nil => simp
    | cons file rest induction =>
        intro list
        have behind : bucket.place file list (bucket.entry root file) =
            list ++ [bucket.entry root file] := by
          cases bucket with
          | includes | preIncludeGlobal => cases all
          | _ => rfl
        rw [List.foldl_cons, induction, behind, List.append_assoc]
        rfl
  rw [contents_ofFiles, nothing, grown, List.nil_append]

theorem preIncludes_ofFiles (files : List File) (session : Session) :
    (session.noteAll (Classification.findings root files)).preIncludeGlobal =
      Ordered.append session.preIncludeGlobal
        ((filed files preIncludeGlobal).map fun file => Path.anchor root file.path) := by
  refine (contents_ofFiles root preIncludeGlobal files session).trans ?_
  rw [Ordered.append, List.foldl_map]
  rfl

end Bucket

namespace Classification

variable (root : String)

/-- A classification in which no bucket is there for nothing. -/
structure Filled (sorted : Classification) : Prop where
  source : sorted.source.Filled
  custom : sorted.custom.Filled
  includes : sorted.includes.Filled

theorem Filled.add {sorted : Classification} (filled : sorted.Filled) (file : File) :
    (add root sorted file).Filled := by
  have behind : ∀ list, list ++ [Path.anchor root file.path] ≠ [] := by simp
  have placed : ∀ list, placeInclude file list (includeDirectory root file) ≠ [] := by
    intro list nothing
    have member : includeDirectory root file ∈
        placeInclude file list (includeDirectory root file) := mem_placeInclude.mpr (.inr rfl)
    rw [nothing] at member
    cases member
  unfold Classification.add
  cases template : file.isTemplate with
  | true => exact filled
  | false =>
      cases file.role with
      | header | includeDirectory =>
          exact ⟨filled.source, filled.custom, filled.includes.update _ _ placed⟩
      | source =>
          cases file.hasCustomOptions with
          | true => exact ⟨filled.source, filled.custom.update _ behind, filled.includes⟩
          | false => exact ⟨filled.source.update _ behind, filled.custom, filled.includes⟩
      | _ => exact ⟨filled.source, filled.custom, filled.includes⟩

theorem filled_ofFiles (files : List File) : (ofFiles root files).Filled := by
  have grown : ∀ (files : List File) (sorted : Classification), sorted.Filled →
      (files.foldl (Classification.add root) sorted).Filled := by
    intro files
    induction files with
    | nil => exact fun _ filled => filled
    | cons file rest induction => exact fun sorted filled => induction _ (filled.add root file)
  exact grown files _
    ⟨LanguageMap.filled_empty, LanguageMap.filled_empty, ScopeMap.filled_empty⟩

/-! ## Directories -/

theorem mem_directories {files : List File} {scope : Scope} {language : Language}
    {directory : String} :
    directory ∈ ((ofFiles root files).includes.get scope).get language ↔
      ∃ file ∈ filed files (.includes scope language), includeDirectory root file = directory :=
  Bucket.mem_contents_of_list root (Bucket.noConfusion : Bucket.includes scope language ≠ _) files
    { root, toolchain := "" }

theorem nodup_directories (files : List File) (scope : Scope) (language : Language) :
    (((ofFiles root files).includes.get scope).get language).Nodup := by
  let session : Session := { root, toolchain := "" }
  have nodup : ((Bucket.includes scope language).contents {} session).Nodup := by
    rw [Bucket.contents_empty Bucket.noConfusion]
    exact List.nodup_nil
  exact Bucket.nodup_contents root rfl nodup files

/-! ## Sources -/

theorem source_ofFiles (files : List File) (language : Language) :
    (ofFiles root files).source.get language =
      (files.filter fun file =>
        file.isCompiled && !file.hasCustomOptions && file.language = language).map
          fun file => Path.anchor root file.path := by
  have listed := Bucket.contents_of_listsAll root (.source language) rfl files
    { root, toolchain := "" }
  simp only [filed, File.bucket?_eq_source, Bool.decide_eq_true] at listed
  exact listed

theorem custom_ofFiles (files : List File) (language : Language) :
    (ofFiles root files).custom.get language =
      (files.filter fun file =>
        file.isCompiled && file.hasCustomOptions && file.language = language).map
          fun file => Path.anchor root file.path := by
  have listed := Bucket.contents_of_listsAll root (.custom language) rfl files
    { root, toolchain := "" }
  simp only [filed, File.bucket?_eq_custom, Bool.decide_eq_true] at listed
  exact listed

/-- A map that lists the files of a kind by their languages is empty where there are none. -/
theorem isEmpty_of_listed {paths : LanguageMap} (filled : paths.Filled) {files : List File}
    {placed : File → Bool}
    (listed : ∀ language, paths.get language =
      (files.filter fun file => placed file && file.language = language).map
        fun file => Path.anchor root file.path) :
    paths.isEmpty = !files.any placed := by
  rw [← Bool.not_eq_eq_eq_not, Bool.eq_iff_iff, Bool.not_eq_true', List.any_eq_true,
    filled.isEmpty_eq_false]
  constructor
  · rintro ⟨language, some⟩
    rw [listed, ← List.isEmpty_eq_false_iff, List.isEmpty_eq_false_iff_exists_mem] at some
    rcases some with ⟨path, member⟩
    rcases List.mem_map.mp member with ⟨file, kept, _⟩
    rcases List.mem_filter.mp kept with ⟨inside, here⟩
    exact ⟨file, inside, (Bool.and_eq_true_iff.mp here).1⟩
  · rintro ⟨file, member, here⟩
    refine ⟨file.language, ?_⟩
    rw [listed]
    apply List.ne_nil_of_mem
    refine List.mem_map_of_mem (List.mem_filter.mpr ⟨member, ?_⟩)
    rw [here, Bool.true_and, decide_eq_true_iff]

theorem isEmpty_source_ofFiles (files : List File) :
    (ofFiles root files).source.isEmpty =
      !files.any fun file => file.isCompiled && !file.hasCustomOptions :=
  isEmpty_of_listed root (filled_ofFiles root files).source (source_ofFiles root files)

theorem isEmpty_custom_ofFiles (files : List File) :
    (ofFiles root files).custom.isEmpty =
      !files.any fun file => file.isCompiled && file.hasCustomOptions :=
  isEmpty_of_listed root (filled_ofFiles root files).custom (custom_ofFiles root files)

theorem compiles_ofFiles (files : List File) :
    (!(ofFiles root files).source.isEmpty || !(ofFiles root files).custom.isEmpty) =
      files.any (·.isCompiled) := by
  rw [isEmpty_source_ofFiles, isEmpty_custom_ofFiles, Bool.not_not, Bool.not_not, ← any_or]
  congr 1
  funext file
  cases file.hasCustomOptions <;> simp

theorem mem_source_ofFiles {files : List File} {file : File} (member : file ∈ files)
    (compiled : file.isCompiled = true) (plain : file.hasCustomOptions = false) :
    Path.anchor root file.path ∈ (ofFiles root files).source.get file.language := by
  rw [source_ofFiles]
  refine List.mem_map.mpr ⟨file, List.mem_filter.mpr ⟨member, ?_⟩, rfl⟩
  simp [compiled, plain]

theorem mem_languages_ofFiles {files : List File} {file : File} (member : file ∈ files)
    (compiled : file.isCompiled = true) (plain : file.hasCustomOptions = false) :
    ∀ single ∈ file.language.singles, single ∈ (ofFiles root files).languages := by
  intro single ofFile
  have listed := mem_source_ofFiles root member compiled plain
  rcases LanguageMap.mem_get.mp listed with ⟨list, bucket, _⟩
  have appended := Ordered.foldl_append []
    (fun entry : Language × List String => entry.1.singles)
    ((ofFiles root files).source.toList ++ (ofFiles root files).custom.toList)
  have spoken : single ∈ ((ofFiles root files).source.toList ++
      (ofFiles root files).custom.toList).flatMap fun entry => entry.1.singles :=
    List.mem_flatMap.mpr ⟨_, List.mem_append_left _ bucket, ofFile⟩
  rw [languages]
  exact appended ▸ Ordered.mem_append.mpr (.inr spoken)

end Classification

end SolutionLists
