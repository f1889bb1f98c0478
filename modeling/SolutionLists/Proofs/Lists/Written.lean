import SolutionLists.Proofs.Target.Bundle

namespace SolutionLists

/-! What stands in the files of a context, line by line. The lines are spelled out here a second
time, apart from how directives are put into words. -/

open Target

namespace ContextPlan

/-- Whether a file of a context holds some lines, one below the other. -/
inductive Writes (plan : ContextPlan) (file : String) (lines : Lines) : Prop
  | intro {first ending : String} {text : Lines} (ends : ending ∈ ["", "\n"])
      (named : (file, first ++ String.join (text.map ("\n" ++ ·)) ++ ending) ∈
        Lists.contextFiles plan)
      (inside : lines <:+: text)

theorem Writes.of_infix {plan : ContextPlan} {file : String} {lines part : Lines}
    (writes : plan.Writes file lines) (inside : part <:+: lines) : plan.Writes file part := by
  cases writes with
  | intro ends named whole => exact .intro ends named (inside.trans whole)

/-- The words in which the lists of a context are written. -/
def wording (plan : ContextPlan) : Lists.Wording :=
  .make plan.root plan.languages

theorem wording_of_sorted {plan : ContextPlan} {languages : List Language}
    (same : plan.languages = languages)
    (sorted : languages.Pairwise fun first second =>
      Language.buckets.idxOf first ≤ Language.buckets.idxOf second) :
    plan.wording = ⟨plan.root, languages⟩ := by
  rw [wording, Lists.Wording.make, same, List.mergeSort_of_pairwise]
  exact sorted.imp fun ordered => decide_eq_true ordered

theorem nodup_languages (context : Context) (root : String) (toolchain : SelectedToolchain) :
    (make context root toolchain).languages.Nodup := by
  have found : (make context root toolchain).languages = _ :=
    languages_session { root, toolchain := toolchain.name } context
  rw [found]
  exact Ordered.nodup_append List.nodup_nil _

theorem single_of_mem_languages {context : Context} {root : String} {toolchain : SelectedToolchain}
    {language : Language} (spoken : language ∈ (make context root toolchain).languages) :
    language ∈ [Language.asm, .c, .cxx] := by
  have found : (make context root toolchain).languages = _ :=
    languages_session { root, toolchain := toolchain.name } context
  rw [found, Ordered.mem_append] at spoken
  rcases spoken with nothing | ofBuckets
  · exact absurd nothing List.not_mem_nil
  · rcases List.mem_flatMap.mp ofBuckets with ⟨bucket, _, ofBucket⟩
    exact Language.single_of_known ofBucket

theorem pairwise_wording (plan : ContextPlan) :
    plan.wording.languages.Pairwise fun first second =>
      Language.buckets.idxOf first ≤ Language.buckets.idxOf second := by
  refine (List.pairwise_mergeSort ?_ ?_ _).imp of_decide_eq_true
  · exact fun _ _ _ before after =>
      decide_eq_true (Nat.le_trans (of_decide_eq_true before) (of_decide_eq_true after))
  · exact fun first second => by simpa using Nat.le_total _ _

/-- The languages of a context are single ones, and the lists go through them in one order. -/
theorem languages_wording_eq (context : Context) (root : String) (toolchain : SelectedToolchain) :
    let plan := make context root toolchain
    plan.wording.languages = [.asm, .c, .cxx].filter (· ∈ plan.languages) := by
  intro plan
  have once := nodup_languages context root toolchain
  have perm : plan.wording.languages.Perm ([.asm, .c, .cxx].filter (· ∈ plan.languages)) := by
    refine (List.mergeSort_perm _ _).trans ?_
    rw [List.perm_ext_iff_of_nodup once (List.Nodup.filter _ (by decide))]
    intro language
    rw [List.mem_filter, decide_eq_true_iff]
    exact (and_iff_right_of_imp single_of_mem_languages).symm
  -- Of two buckets one is spelled first, so there is one order in which they can stand.
  refine perm.eq_of_pairwise ?_ (pairwise_wording plan) (List.Pairwise.filter _ (by decide))
  intro first second _ _ before after
  revert before after
  cases first <;> cases second <;> decide

/-! ## The files of a context -/

variable {plan : ContextPlan} {lines : Lines}

theorem writes_target (inside : lines <:+: Lists.targetLines plan plan.wording) :
    plan.Writes "CMakeLists.txt" lines := by
  refine .intro (List.mem_cons_of_mem _ List.mem_cons_self) List.mem_cons_self
    (inside.trans ?_)
  iterate 5 refine List.infix_append_of_infix_left ?_
  exact (List.suffix_append _ _).isInfix

theorem writes_directives {name : String} (directives : List Directive)
    (named : (name, Lists.directivesFile name plan.wording directives) ∈ Lists.contextFiles plan)
    (inside : lines <:+: Lists.lines plan.wording directives) : plan.Writes name lines := by
  have ending : Lists.directivesFile name plan.wording directives ++ "" = _ := String.append_empty
  rw [← ending] at named
  exact .intro List.mem_cons_self named inside

end ContextPlan

namespace Lists

theorem directiveLines_infix (wording : Wording) {directives : List Directive}
    {directive : Directive} (member : directive ∈ directives) :
    directiveLines wording directive <:+: lines wording directives :=
  List.infix_of_mem_flatten (List.mem_map_of_mem member)

/-- Options of one language: below its condition, each on a line of its own. -/
def conditionLines (language : String) (options : List String) : Lines :=
  ["  $<$<COMPILE_LANGUAGE:" ++ language ++ ">:"] ++ options.map ("    " ++ ·) ++ ["  >"]

theorem indent_forLanguage (language : Language) (options : List String) :
    Lines.indent "  " (forLanguage language options) =
      conditionLines language.spelling options := by
  have margin : ∀ option, "  " ++ ("  " ++ option) = "    " ++ option := by
    intro option
    rw [← String.append_assoc]
    rfl
  simp [forLanguage, conditionLines, Lines.indent, Function.comp_def, margin,
    ← String.append_assoc]

end Lists

namespace Target

theorem writes_site {context : Context} (root : String) (toolchain : SelectedToolchain)
    {list : String × List Site}
    (isList : list ∈
      [("groups.cmake", context.groupSites), ("components.cmake", context.componentSites)])
    {site : Site} (member : site ∈ list.2) {directive : Directive}
    (said : directive ∈ site.directives { root, toolchain := toolchain.name } context)
    {lines : Lines} :
    let plan := ContextPlan.make context root toolchain
    lines <:+: Lists.directiveLines plan.wording directive → plan.Writes list.1 lines := by
  intro plan inside
  simp only [List.mem_cons, List.not_mem_nil, or_false] at isList
  rcases isList with rfl | rfl
  · have listed := (listing_groups { root, toolchain := toolchain.name } context).sublist member
    refine ContextPlan.writes_directives plan.tree.groups ?_
      (inside.trans (Lists.directiveLines_infix _ (listed.subset said)))
    exact .tail _ (.tail _ (.head _))
  · have listed := (listing_components { root, toolchain := toolchain.name } context).sublist member
    refine ContextPlan.writes_directives plan.tree.components ?_
      (inside.trans (Lists.directiveLines_infix _ (listed.subset said)))
    exact .tail _ (.tail _ (.tail _ (.head _)))

end Target

end SolutionLists
