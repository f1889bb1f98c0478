import SolutionLists.Proofs.Classification.Buckets

namespace SolutionLists

/-! What can be told of a file list ahead of sorting it: whether anything is left to build, and
whether its unit only hands on settings. Both are told from how the categories begin, while
files are sorted by whole categories. -/

/-- Whether what lies in a bucket is built, shown to users or linked. -/
def Bucket.isContent : Bucket → Bool
  | preIncludeLocal | preIncludeGlobal => false
  | _ => true

/-- Whether a file passes for a source, a header or an include by the beginning of its category
alone. -/
def File.isStray (file : File) : Bool :=
  !file.isTemplate && file.category ∉ sortedCategories &&
    (file.isSource || Text.startsWith file.category "header" ||
      Text.startsWith file.category "include")

/-- Whether a file is a source, by the beginning of its category alone, that would be compiled
with its group or component. -/
def File.isStraySource (file : File) : Bool :=
  file.isStray && file.isPlainSource

/-! ## Single files -/

theorem File.any_isContent (interface : Bool) (file : File) :
    (file.bucket? interface).any Bucket.isContent =
      (!file.isTemplate &&
        file.role ∈ [.header, .includeDirectory, .source, .library, .object]) := by
  unfold bucket?
  cases file.isTemplate with
  | true => rfl
  | false => cases file.role <;> cases file.hasCustomOptions <;> rfl

theorem File.isBuildable_eq_content (interface : Bool) (file : File) :
    file.isBuildable = ((file.bucket? interface).any Bucket.isContent || file.isStray) := by
  have known : ∀ category ∈ sortedCategories,
      (Text.startsWith category "source" || Text.startsWith category "header" ||
        Text.startsWith category "include" || category = "library" || category = "object") =
      decide (FileRole.ofCategory category ∈
        [.header, .includeDirectory, .source, .library, .object]) := by decide
  rw [any_isContent]
  unfold isBuildable isStray isSource
  by_cases sorted : file.category ∈ sortedCategories
  · rw [known file.category sorted, role]
    simp [sorted]
  · have other := role_eq_other_iff.mpr sorted
    have named : ∀ category ∈ sortedCategories, file.category ≠ category :=
      fun category member same => sorted (same ▸ member)
    simp [sorted, other, named "library" (by decide), named "object" (by decide)]

theorem File.isPlainSource_eq (file : File) :
    file.isPlainSource = (file.isCompiled && !file.hasCustomOptions || file.isStraySource) := by
  have known : ∀ category ∈ sortedCategories,
      Text.startsWith category "source" =
        decide (FileRole.ofCategory category = .source) := by decide
  unfold isStraySource isPlainSource isStray isCompiled isSource
  by_cases sorted : file.category ∈ sortedCategories
  · rw [known file.category sorted, role]
    simp [sorted]
  · have other := role_eq_other_iff.mpr sorted
    cases Text.startsWith file.category "source" <;> simp [sorted, other]

/-! ## File lists -/

namespace Classification

variable (root : String) (files : List File)

theorem hasContent_iff : (ofFiles root files).hasContent = true ↔
    ∃ bucket : Bucket, bucket.isContent = true ∧ filed files bucket ≠ [] := by
  have filled := filled_ofFiles root files
  have held : ∀ bucket : Bucket, bucket ≠ .preIncludeGlobal →
      (bucket.contents (ofFiles root files)
        (Session.noteAll { root, toolchain := "" } (findings root files)) ≠ [] ↔
      filed files bucket ≠ []) := fun _ ofList => Bucket.contents_ne_nil root ofList files _
  unfold hasContent
  simp only [Bool.or_eq_true, Bool.not_eq_true', filled.source.isEmpty_eq_false,
    filled.custom.isEmpty_eq_false, filled.includes.isEmpty_eq_false, List.isEmpty_eq_false_iff]
  constructor
  · rintro ((((⟨language, some⟩ | ⟨language, some⟩) | ⟨scope, language, some⟩) | some) | some)
    · exact ⟨.source language, rfl, (held _ Bucket.noConfusion).mp some⟩
    · exact ⟨.custom language, rfl, (held _ Bucket.noConfusion).mp some⟩
    · exact ⟨.includes scope language, rfl, (held _ Bucket.noConfusion).mp some⟩
    · exact ⟨.library, rfl, (held _ Bucket.noConfusion).mp some⟩
    · exact ⟨.object, rfl, (held _ Bucket.noConfusion).mp some⟩
  · rintro ⟨bucket, content, some⟩
    cases bucket with
    | source language =>
        exact .inl (.inl (.inl (.inl ⟨language, (held _ Bucket.noConfusion).mpr some⟩)))
    | custom language =>
        exact .inl (.inl (.inl (.inr ⟨language, (held _ Bucket.noConfusion).mpr some⟩)))
    | includes scope language =>
        exact .inl (.inl (.inr ⟨scope, language, (held _ Bucket.noConfusion).mpr some⟩))
    | library => exact .inl (.inr ((held _ Bucket.noConfusion).mpr some))
    | object => exact .inr ((held _ Bucket.noConfusion).mpr some)
    | preIncludeLocal | preIncludeGlobal => cases content

theorem hasContent_eq_any :
    (ofFiles root files).hasContent =
      files.any fun file =>
        (file.bucket? (!files.any (·.isPlainSource))).any Bucket.isContent := by
  rw [Bool.eq_iff_iff, hasContent_iff, List.any_eq_true]
  simp only [filed_ne_nil, Option.any_eq_true]
  constructor
  · rintro ⟨bucket, content, file, member, here⟩
    exact ⟨file, member, bucket, here, content⟩
  · rintro ⟨file, member, bucket, here, content⟩
    exact ⟨bucket, content, file, member, here⟩

/-- Ahead of sorting, a list is taken to leave something to build where it does or where one of
its files is a stray, and its unit to hand on settings alone where it has no plain source and no
stray one. Without strays both are told right. -/
theorem sorting_foreseen_but_for_strays :
    hasBuildableFiles files = ((ofFiles root files).hasContent || files.any (·.isStray)) ∧
    (ofFiles root files).interface =
      ((ofFiles root files).source.isEmpty && !files.any (·.isStraySource)) ∧
    ((∀ file ∈ files, file.isStray = false) →
      (hasBuildableFiles files = true ↔ (ofFiles root files).hasContent = true) ∧
      ((ofFiles root files).interface = true ↔ (ofFiles root files).source.isEmpty = true)) := by
  have buildable : hasBuildableFiles files =
      ((ofFiles root files).hasContent || files.any (·.isStray)) := by
    rw [hasContent_eq_any, ← any_or]
    unfold hasBuildableFiles
    congr 1
    funext file
    exact file.isBuildable_eq_content _
  have interface : (ofFiles root files).interface =
      ((ofFiles root files).source.isEmpty && !files.any (·.isStraySource)) := by
    rw [interface_ofFiles, isEmpty_source_ofFiles, ← Bool.not_or, ← any_or]
    congr 2
    funext file
    exact file.isPlainSource_eq
  refine ⟨buildable, interface, fun recognised => ?_⟩
  have noStray : files.any (·.isStray) = false := by simpa using recognised
  have noStraySource : files.any (·.isStraySource) = false := by
    apply List.any_eq_false.mpr
    intro file member
    rw [File.isStraySource, recognised file member]
    exact Bool.false_ne_true
  rw [buildable, interface, noStray, noStraySource, Bool.or_false, Bool.not_false, Bool.and_true]
  exact ⟨Iff.rfl, Iff.rfl⟩

private def linkedFiles : List File :=
  [{ path := "unit.c", category := "sourceC", define := [{ name := "UNIT" }] },
    { path := "libunit.a", category := "library" },
    { path := "main.c", category := "sourceC", attr := "template" }]

theorem sorting_foreseen_but_for_strays_linked :
    (∀ file ∈ linkedFiles, file.isStray = false) ∧
      (hasBuildableFiles linkedFiles = true ↔
        (ofFiles "project" linkedFiles).hasContent = true) ∧
      ((ofFiles "project" linkedFiles).interface = true ↔
        (ofFiles "project" linkedFiles).source.isEmpty = true) := by
  have recognised : ∀ file ∈ linkedFiles, file.isStray = false := by decide
  exact ⟨recognised, (sorting_foreseen_but_for_strays "project" linkedFiles).2.2 recognised⟩

/-- A category in other letters is that of a stray source: it is taken for one that the unit
compiles, and goes nowhere. -/
theorem stray_source_goes_nowhere :
    ¬ ∀ (root : String) (files : List File),
      (hasBuildableFiles files = true ↔ (ofFiles root files).hasContent = true) ∧
      ((ofFiles root files).interface = true ↔
        (ofFiles root files).source.isEmpty = true) := by
  intro always
  have agreed := (always "project" [{ path := "startup", category := "sourceASM" }]).1
  exact absurd agreed (by decide)

end Classification

end SolutionLists
