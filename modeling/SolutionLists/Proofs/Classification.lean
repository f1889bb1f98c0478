import SolutionLists.Classification
import SolutionLists.Proofs.LanguageMap

namespace SolutionLists

/-! What can be said of a classification without looking at its buckets: whether its unit only
hands on settings, and what its files tell about their context. -/

/-- Whether a file is of one of the source categories and is not there to be copied. -/
def File.isCompiled (file : File) : Bool :=
  file.role = .source && !file.isTemplate

theorem File.isSource_of_role {file : File} (role : file.role = .source) :
    file.isSource = true := by
  have starts : ∀ category ∈ ["source", "sourceAsm", "sourceC", "sourceCpp"],
      Text.startsWith category "source" = true := by decide
  refine starts file.category ?_
  by_contra other
  unfold File.role FileRole.ofCategory at role
  rw [if_neg other] at role
  split_ifs at role

namespace Classification

variable (root : String)

theorem interface_add (sorted : Classification) (file : File) :
    (add root sorted file).interface = sorted.interface := by
  unfold add
  split
  · rfl
  · dsimp only
    split <;> first | rfl | split <;> rfl

theorem interface_ofFiles (files : List File) :
    (ofFiles root files).interface = !files.any (·.isPlainSource) := by
  have kept : ∀ (files : List File) (sorted : Classification),
      (files.foldl (add root) sorted).interface = sorted.interface := by
    intro files
    induction files with
    | nil => intro sorted; rfl
    | cons file rest induction =>
        intro sorted
        rw [List.foldl_cons, induction, interface_add]
  exact kept files _

theorem mem_findings {files : List File} {finding : Session.Finding}
    (told : finding ∈ findings root files) :
    (∃ language, finding = .language language) ∨ ∃ file, finding = .preInclude file := by
  rcases List.mem_filterMap.mp told with ⟨file, _, found⟩
  unfold finding? at found
  split at found
  · cases found
  · split at found
    · cases found
      exact .inl ⟨_, rfl⟩
    · cases found
      exact .inr ⟨_, rfl⟩
    · cases found

theorem filterMap_findings {β : Type} {read? : Session.Finding → Option β}
    (noLanguage : ∀ language, read? (.language language) = none)
    (noPreInclude : ∀ file, read? (.preInclude file) = none) (files : List File) :
    (findings root files).filterMap read? = [] := by
  apply List.filterMap_eq_nil_iff.mpr
  intro finding told
  rcases mem_findings root told with ⟨language, rfl⟩ | ⟨file, rfl⟩
  · exact noLanguage language
  · exact noPreInclude file

theorem mem_placeInclude {file : File} {directories : List String} {directory other : String} :
    other ∈ placeInclude file directories directory ↔ other ∈ directories ∨ other = directory := by
  unfold placeInclude
  split
  · exact Ordered.mem_insertFirst
  · exact Ordered.mem_insertLast

end Classification

end SolutionLists
