import Mathlib.Data.List.Lattice
import SolutionLists.Proofs.LanguageMap

namespace SolutionLists

/-! Giving each directory to the widest bucket that it belongs to. The sources of every
language find the same directories before and after, and one pass leaves nothing to move. -/

theorem Language.mem_singles_all {bucket language : Language}
    (single : language ∈ bucket.singles) : language ∈ Language.all.singles := by
  revert single
  cases bucket <;> cases language <;> decide

namespace LanguageMap

variable {paths : LanguageMap} {first second shared : Language}

/-- The paths that sources of a single language find: those of all buckets that stand for the
language. -/
def visible (paths : LanguageMap) (language : Language) : List String :=
  (Language.buckets.filter (language ∈ ·.singles)).flatMap paths.get

theorem mem_visible {language : Language} {path : String} :
    path ∈ paths.visible language ↔
      ∃ bucket : Language, language ∈ bucket.singles ∧ path ∈ paths.get bucket := by
  simp [visible, Language.mem_buckets]

theorem mem_visible_asm {path : String} :
    path ∈ paths.visible .asm ↔ path ∈ paths.get .all ∨ path ∈ paths.get .asm := by
  simp [visible, Language.buckets, Language.singles]

theorem mem_visible_c {path : String} :
    path ∈ paths.visible .c ↔
      path ∈ paths.get .all ∨ path ∈ paths.get .c ∨ path ∈ paths.get .cAndCxx := by
  simp [visible, Language.buckets, Language.singles]

theorem mem_visible_cxx {path : String} :
    path ∈ paths.visible .cxx ↔
      path ∈ paths.get .all ∨ path ∈ paths.get .cxx ∨ path ∈ paths.get .cAndCxx := by
  simp [visible, Language.buckets, Language.singles, or_comm]

/-! ## Moving what two buckets have in common -/

/-- A path that both buckets hold is in the bucket that stands for both, and in neither of the
two any more; all others stay. -/
theorem mem_get_shareCommon {language : Language} {path : String} :
    path ∈ (paths.shareCommon first second shared).get language ↔
      (path ∈ paths.get language ∨
        language = shared ∧ path ∈ paths.get first ∧ path ∈ paths.get second) ∧
      ((language = first ∨ language = second) →
        ¬ (path ∈ paths.get first ∧ path ∈ paths.get second)) := by
  have grown : path ∈ (if language = shared then
        Ordered.append (paths.get shared) (Ordered.common (paths.get first) (paths.get second))
      else paths.get language) ↔
      path ∈ paths.get language ∨
        language = shared ∧ path ∈ paths.get first ∧ path ∈ paths.get second := by
    by_cases here : language = shared
    · rw [if_pos here, Ordered.mem_append, Ordered.mem_common, here]
      simp
    · simp [here]
  rw [get_shareCommon]
  by_cases taken : language = first ∨ language = second
  · rw [if_pos taken, Ordered.mem_without, grown, Ordered.mem_common]
    simp [taken]
  · rw [if_neg taken, grown]
    simp [taken]

theorem get_shareCommon_of_ne {language : Language} (notFirst : language ≠ first)
    (notSecond : language ≠ second) (notShared : language ≠ shared) :
    (paths.shareCommon first second shared).get language = paths.get language := by
  have kept : ¬ (language = first ∨ language = second) := by simp [notFirst, notSecond]
  rw [get_shareCommon, if_neg kept, if_neg notShared]

theorem visible_shareCommon (notFirst : shared ≠ first) (notSecond : shared ≠ second)
    (stands : ∀ language, language ∈ shared.singles ↔
      language ∈ first.singles ∨ language ∈ second.singles)
    (language : Language) (path : String) :
    path ∈ (paths.shareCommon first second shared).visible language ↔
      path ∈ paths.visible language := by
  rw [mem_visible, mem_visible]
  constructor
  · rintro ⟨bucket, single, member⟩
    rcases (mem_get_shareCommon.mp member).1 with stayed | ⟨rfl, inFirst, inSecond⟩
    · exact ⟨bucket, single, stayed⟩
    · rcases (stands language).mp single with ofFirst | ofSecond
      · exact ⟨first, ofFirst, inFirst⟩
      · exact ⟨second, ofSecond, inSecond⟩
  · rintro ⟨bucket, single, member⟩
    by_cases moved : (bucket = first ∨ bucket = second) ∧
        path ∈ paths.get first ∧ path ∈ paths.get second
    case pos =>
      have wider : language ∈ shared.singles := by
        apply (stands language).mpr
        rcases moved.1 with rfl | rfl
        · exact .inl single
        · exact .inr single
      refine ⟨shared, wider, mem_get_shareCommon.mpr ⟨.inr ⟨rfl, moved.2⟩, ?_⟩⟩
      intro taken
      exact absurd taken (by simp [notFirst, notSecond])
    case neg =>
      refine ⟨bucket, single, mem_get_shareCommon.mpr ⟨.inl member, ?_⟩⟩
      exact fun taken common => moved ⟨taken, common⟩

theorem disjoint_shareCommon (notFirst : first ≠ shared) (notSecond : second ≠ shared) :
    List.Disjoint ((paths.shareCommon first second shared).get first)
      ((paths.shareCommon first second shared).get second) := by
  intro path inFirst inSecond
  have ofFirst := mem_get_shareCommon.mp inFirst
  have ofSecond := mem_get_shareCommon.mp inSecond
  apply ofFirst.2 (.inl rfl)
  constructor
  · exact ofFirst.1.resolve_right fun moved => notFirst moved.1
  · exact ofSecond.1.resolve_right fun moved => notSecond moved.1

theorem shareCommon_of_disjoint (disjoint : List.Disjoint (paths.get first) (paths.get second)) :
    paths.shareCommon first second shared = paths := by
  have nothing : Ordered.common (paths.get first) (paths.get second) = [] := by
    apply List.eq_nil_iff_forall_not_mem.mpr
    intro path common
    have both := Ordered.mem_common.mp common
    exact disjoint both.1 both.2
  rw [shareCommon, if_pos nothing]

/-! ## All moves -/

/-- The paths once what C and C++ have in common is moved, and then what assembler has in
common with both. -/
def moved (paths : LanguageMap) : LanguageMap :=
  (paths.shareCommon .c .cxx .cAndCxx).shareCommon .asm .cAndCxx .all

theorem visible_moved (paths : LanguageMap) (language : Language) (path : String) :
    path ∈ paths.moved.visible language ↔ path ∈ paths.visible language := by
  have stands : ∀ single, single ∈ Language.singles .cAndCxx ↔
      single ∈ Language.singles .c ∨ single ∈ Language.singles .cxx := by
    intro single
    cases single <;> decide
  have everywhere : ∀ single, single ∈ Language.singles .all ↔
      single ∈ Language.singles .asm ∨ single ∈ Language.singles .cAndCxx := by
    intro single
    cases single <;> decide
  rw [moved, visible_shareCommon (by decide) (by decide) everywhere,
    visible_shareCommon (by decide) (by decide) stands]

theorem mem_get_factor {language : Language} {path : String} :
    path ∈ paths.factor.get language ↔
      path ∈ paths.moved.get language ∧
        (language ≠ .all → path ∉ paths.moved.get .all) := by
  have lists : paths.factor.get language =
      if language = .all then paths.moved.get language
      else Ordered.without (paths.moved.get language) (paths.moved.get .all) :=
    get_factor paths language
  rw [lists]
  by_cases all : language = .all
  · simp [all]
  · simp [all]

theorem visible_factor (paths : LanguageMap) (language : Language) (path : String) :
    path ∈ paths.factor.visible language ↔ path ∈ paths.visible language := by
  rw [← visible_moved paths, mem_visible, mem_visible]
  constructor
  · rintro ⟨bucket, single, member⟩
    exact ⟨bucket, single, (mem_get_factor.mp member).1⟩
  · rintro ⟨bucket, single, member⟩
    by_cases everywhere : path ∈ paths.moved.get .all
    · refine ⟨.all, Language.mem_singles_all single, mem_get_factor.mpr ⟨everywhere, ?_⟩⟩
      exact fun different => absurd rfl different
    · exact ⟨bucket, single, mem_get_factor.mpr ⟨member, fun _ => everywhere⟩⟩

/-- No source loses or gains a directory: what is found for assembler, for C and for C++, in
the buckets that stand for each of them, stays the same. -/
theorem factor_keeps_visible_paths (paths : LanguageMap) (path : String) :
    (path ∈ paths.factor.get .all ∨ path ∈ paths.factor.get .asm ↔
      path ∈ paths.get .all ∨ path ∈ paths.get .asm) ∧
    (path ∈ paths.factor.get .all ∨ path ∈ paths.factor.get .c ∨
        path ∈ paths.factor.get .cAndCxx ↔
      path ∈ paths.get .all ∨ path ∈ paths.get .c ∨ path ∈ paths.get .cAndCxx) ∧
    (path ∈ paths.factor.get .all ∨ path ∈ paths.factor.get .cxx ∨
        path ∈ paths.factor.get .cAndCxx ↔
      path ∈ paths.get .all ∨ path ∈ paths.get .cxx ∨ path ∈ paths.get .cAndCxx) := by
  rw [← mem_visible_asm, ← mem_visible_asm, ← mem_visible_c, ← mem_visible_c,
    ← mem_visible_cxx, ← mem_visible_cxx]
  exact ⟨visible_factor paths .asm path, visible_factor paths .c path,
    visible_factor paths .cxx path⟩

/-! ## Nothing left to move -/

/-- No bucket is empty, and no two buckets share a path for which there is a wider one. -/
structure Factored (paths : LanguageMap) : Prop where
  filled : ∀ language list, paths.get? language = some list → list ≠ []
  single : List.Disjoint (paths.get .c) (paths.get .cxx)
  assembly : List.Disjoint (paths.get .asm) (paths.get .cAndCxx)
  everywhere : ∀ language, language ≠ .all →
    List.Disjoint (paths.get .all) (paths.get language)

theorem factored_factor (paths : LanguageMap) : paths.factor.Factored where
  filled := by
    intro language list present
    rw [factor, get?_dropEmpty] at present
    exact of_decide_eq_true (Option.filter_eq_some_iff.mp present).2
  single := by
    intro path inC inCxx
    have ofC := (mem_get_factor.mp inC).1
    have ofCxx := (mem_get_factor.mp inCxx).1
    rw [moved, get_shareCommon_of_ne (by decide) (by decide) (by decide)] at ofC ofCxx
    exact disjoint_shareCommon (by decide) (by decide) ofC ofCxx
  assembly := by
    intro path inAsm inBoth
    have ofAsm := (mem_get_factor.mp inAsm).1
    have ofBoth := (mem_get_factor.mp inBoth).1
    exact disjoint_shareCommon (by decide) (by decide) ofAsm ofBoth
  everywhere := by
    intro language different path inAll inLanguage
    exact (mem_get_factor.mp inLanguage).2 different (mem_get_factor.mp inAll).1

theorem Factored.moved_eq (factored : paths.Factored) : paths.moved = paths := by
  rw [moved, shareCommon_of_disjoint factored.single, shareCommon_of_disjoint factored.assembly]

theorem Factored.factor_eq (factored : paths.Factored) : paths.factor = paths := by
  have stripped : ∀ language, language ≠ .all →
      Ordered.without (paths.get language) (paths.get .all) = paths.get language := by
    intro language different
    apply List.filter_eq_self.mpr
    intro path member
    apply decide_eq_true
    exact fun inAll => factored.everywhere language different inAll member
  apply ext
  intro language
  have whole := factored.moved_eq
  rw [moved] at whole
  rw [factor, whole, get?_dropEmpty, get?_mapLists]
  cases present : paths.get? language with
  | none => rfl
  | some list =>
      have listed : paths.get language = list := by rw [get, present, Option.getD_some]
      have kept : (if language = .all then list else Ordered.without list (paths.get .all)) =
          list := by
        split
        case isTrue => rfl
        case isFalse different => exact listed ▸ stripped language different
      rw [Option.map_some, kept]
      exact Option.filter_eq_some_iff.mpr ⟨rfl, decide_eq_true (factored.filled _ _ present)⟩

/-- One pass gives each path its widest buckets: after it there is nothing that another one
would move or drop. -/
theorem factor_reaches_normal_form (paths : LanguageMap) :
    paths.factor.Factored ∧ paths.factor.factor = paths.factor := by
  have factored := factored_factor paths
  exact ⟨factored, factored.factor_eq⟩

example : factor { asm := ["d", "x"], c := ["a", "b", "x"], cxx := ["c", "b", "x"] } =
    { all := ["x"], asm := ["d"], c := ["a"], cAndCxx := ["b"], cxx := ["c"] } := by decide

end LanguageMap

end SolutionLists
