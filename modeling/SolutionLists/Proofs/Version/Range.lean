import SolutionLists.Proofs.Version.Order
import SolutionLists.Version.Range

namespace SolutionLists.Version

/-! The operations on sets of versions are those on sets, as long as the cuts of a set
stand in ascending order. All sets that are made keep theirs so. -/

/-! ## Cuts -/

namespace Cut

theorem order_eq : order =
    compareLex (fun left right => left.version.order right.version)
      (compareOn fun cut => cut.above.toNat) := rfl

instance : Std.TransCmp order := by
  have versions := transCmp_on Cut.version Version.order
  rw [order_eq]
  infer_instance

theorem isBelow_iff {cut : Cut} {version : Version} :
    cut.isBelow version = true ↔ cut.order ⟨version, true⟩ = .lt := by
  unfold isBelow order
  dsimp only
  cases cut.version.order version <;> cases cut.above <;> decide

theorem isBelow_of_lt {first second : Cut} (before : first.order second = .lt)
    {version : Version} (below : second.isBelow version = true) :
    first.isBelow version = true :=
  isBelow_iff.mpr (Std.TransCmp.lt_trans before (isBelow_iff.mp below))

theorem isBelow_below (cut version : Version) :
    isBelow ⟨cut, false⟩ version = decide (cut ≤ version) := by
  change _ = decide ((cut.order version).isLE = true)
  unfold isBelow
  cases cut.order version <;> rfl

end Cut

/-! ## Passing the cuts -/

namespace Range

/-- Whether a version is inside a set when the cuts below it change what was so below
all of them. -/
def holds (inside : Bool) (cuts : List Cut) (version : Version) : Bool :=
  cuts.foldl (fun inside cut => if cut.isBelow version then !inside else inside) inside

def Ascending (cuts : List Cut) : Prop :=
  cuts.Pairwise fun first second => first.order second = .lt

def AllAbove (cut : Cut) (cuts : List Cut) : Prop :=
  ∀ other ∈ cuts, cut.order other = .lt

theorem allAbove_nil (cut : Cut) : AllAbove cut [] := fun _ member => nomatch member

theorem ascending_cons {cut : Cut} {cuts : List Cut} :
    Ascending (cut :: cuts) ↔ AllAbove cut cuts ∧ Ascending cuts :=
  List.pairwise_cons

theorem AllAbove.trans {first second : Cut} {cuts : List Cut}
    (before : first.order second = .lt) (above : AllAbove second cuts) : AllAbove first cuts :=
  fun other member => Std.TransCmp.lt_trans before (above other member)

theorem AllAbove.cons {first second : Cut} {cuts : List Cut}
    (before : first.order second = .lt) (above : AllAbove second cuts) :
    AllAbove first (second :: cuts) := by
  intro other member
  rcases List.mem_cons.mp member with rfl | later
  · exact before
  · exact above.trans before other later

variable {version : Version}

theorem holds_not (inside : Bool) (cuts : List Cut) :
    holds (!inside) cuts version = !holds inside cuts version := by
  induction cuts generalizing inside with
  | nil => rfl
  | cons cut rest induction =>
      unfold holds at induction ⊢
      rw [List.foldl_cons, List.foldl_cons]
      split
      · exact induction (!inside)
      · exact induction inside

theorem holds_of_not_below {cut : Cut} {cuts : List Cut} (above : AllAbove cut cuts)
    (notBelow : ¬ cut.isBelow version = true) (inside : Bool) :
    holds inside cuts version = inside := by
  induction cuts with
  | nil => rfl
  | cons head tail induction =>
      have headAbove : ¬ head.isBelow version = true := fun below =>
        notBelow (Cut.isBelow_of_lt (above head List.mem_cons_self) below)
      unfold holds at induction ⊢
      rw [List.foldl_cons, if_neg headAbove]
      exact induction fun other member => above other (List.mem_cons_of_mem head member)

theorem holds_cons {cut : Cut} {cuts : List Cut} (above : AllAbove cut cuts) (inside : Bool) :
    holds inside (cut :: cuts) version =
      if cut.isBelow version then holds (!inside) cuts version else inside := by
  by_cases below : cut.isBelow version = true
  · rw [if_pos below]
    exact congrArg (cuts.foldl _ ·) (if_pos below)
  · rw [if_neg below]
    exact (congrArg (cuts.foldl _ ·) (if_neg below)).trans
      (holds_of_not_below above below inside)

/-! ## Two sets side by side -/

theorem holds_keep {cut : Cut} {cuts : List Cut} (above : AllAbove cut cuts)
    (before after : Bool) :
    holds before (sweep.keep cut before after cuts) version =
      if cut.isBelow version then holds after cuts version else before := by
  unfold sweep.keep
  by_cases same : before = after
  · subst same
    rw [if_pos rfl]
    by_cases below : cut.isBelow version = true
    · rw [if_pos below]
    · rw [if_neg below, holds_of_not_below above below]
  · rw [if_neg same, holds_cons above, Bool.not_eq.mpr same]

/-- How a set looks from a cut that none of its own comes before: behind the cut it
continues with `after` and `rest`. -/
structure Passes (inside : Bool) (cuts : List Cut) (cut : Cut) (after : Bool)
    (rest : List Cut) : Prop where
  within : ∀ other ∈ rest, other ∈ cuts
  above : AllAbove cut rest
  ascending : Ascending rest
  holds_eq : ∀ version, holds inside cuts version =
    if cut.isBelow version then holds after rest version else inside

theorem Passes.head (inside : Bool) {cut : Cut} {rest : List Cut}
    (ascending : Ascending (cut :: rest)) : Passes inside (cut :: rest) cut (!inside) rest where
  within _ := List.mem_cons_of_mem cut
  above := (ascending_cons.mp ascending).1
  ascending := (ascending_cons.mp ascending).2
  holds_eq _ := holds_cons (ascending_cons.mp ascending).1 inside

theorem Passes.front (inside : Bool) {cut : Cut} {cuts : List Cut} (ascending : Ascending cuts)
    (above : AllAbove cut cuts) : Passes inside cuts cut inside cuts where
  within _ member := member
  above := above
  ascending := ascending
  holds_eq version := by
    split
    case isTrue => rfl
    case isFalse notBelow => exact holds_of_not_below above notBelow inside

theorem Passes.same (inside : Bool) {cut first : Cut} {rest : List Cut}
    (place : cut.order first = .eq) (ascending : Ascending (first :: rest)) :
    Passes inside (first :: rest) cut (!inside) rest where
  within _ := List.mem_cons_of_mem first
  above other member := by
    rw [Std.TransCmp.congr_left place]
    exact (ascending_cons.mp ascending).1 other member
  ascending := (ascending_cons.mp ascending).2
  holds_eq version := by
    have below : cut.isBelow version = first.isBelow version := by
      rw [Bool.eq_iff_iff, Cut.isBelow_iff, Cut.isBelow_iff, Std.TransCmp.congr_left place]
    rw [below]
    exact holds_cons (ascending_cons.mp ascending).1 inside

/-- What the cuts of two sets become when the sets are combined. -/
structure Swept (operation : Bool → Bool → Bool) (left right : Bool) (lefts rights : List Cut)
    (cuts : List Cut) : Prop where
  ascending : Ascending cuts
  above : ∀ cut, AllAbove cut lefts → AllAbove cut rights → AllAbove cut cuts
  holds_eq : ∀ version, holds (operation left right) cuts version =
    operation (holds left lefts version) (holds right rights version)

section Sweep

variable {operation : Bool → Bool → Bool} {left right : Bool} {lefts rights : List Cut}

theorem Swept.step {cut : Cut} {leftAfter rightAfter : Bool} {leftRest rightRest cuts : List Cut}
    (leftPasses : Passes left lefts cut leftAfter leftRest)
    (rightPasses : Passes right rights cut rightAfter rightRest)
    (first : cut ∈ lefts ∨ cut ∈ rights)
    (swept : Swept operation leftAfter rightAfter leftRest rightRest cuts) :
    Swept operation left right lefts rights
      (sweep.keep cut (operation left right) (operation leftAfter rightAfter) cuts) := by
  have above := swept.above cut leftPasses.above rightPasses.above
  refine ⟨?_, fun other leftAbove rightAbove => ?_, fun version => ?_⟩
  · unfold sweep.keep
    split
    · exact swept.ascending
    · exact ascending_cons.mpr ⟨above, swept.ascending⟩
  · have restAbove := swept.above other
      (fun later member => leftAbove later (leftPasses.within later member))
      (fun later member => rightAbove later (rightPasses.within later member))
    unfold sweep.keep
    split
    · exact restAbove
    · exact AllAbove.cons (first.elim (leftAbove cut) (rightAbove cut)) above
  · rw [holds_keep above, leftPasses.holds_eq, rightPasses.holds_eq]
    split
    · exact swept.holds_eq version
    · rfl

theorem swept_sweep (leftAscending : Ascending lefts) (rightAscending : Ascending rights) :
    Swept operation left right lefts rights (sweep operation left right lefts rights) := by
  -- In each case the lower of the two first cuts is passed, in both sets at once.
  induction left, right, lefts, rights using sweep.induct with
  | case1 left right =>
      rw [sweep]
      exact ⟨.nil, (fun _ _ _ _ member => nomatch member), fun _ => rfl⟩
  | case2 left right first rest induction =>
      rw [sweep]
      have passed := Passes.head left leftAscending
      exact .step passed (.front right .nil (allAbove_nil first))
        (.inl List.mem_cons_self) (induction passed.ascending .nil)
  | case3 left right second rest induction =>
      rw [sweep]
      have passed := Passes.head right rightAscending
      exact .step (.front left .nil (allAbove_nil second)) passed
        (.inr List.mem_cons_self) (induction .nil passed.ascending)
  | case4 left right first firsts second seconds before induction =>
      rw [sweep, before]
      have passed := Passes.head left leftAscending
      have above := AllAbove.cons before (ascending_cons.mp rightAscending).1
      exact .step passed (.front right rightAscending above) (.inl List.mem_cons_self)
        (induction passed.ascending rightAscending)
  | case5 left right first firsts second seconds behind induction =>
      rw [sweep, behind]
      have passed := Passes.head right rightAscending
      have before := Std.OrientedCmp.lt_of_gt behind
      have above := AllAbove.cons before (ascending_cons.mp leftAscending).1
      exact .step (.front left leftAscending above) passed (.inr List.mem_cons_self)
        (induction leftAscending passed.ascending)
  | case6 left right first firsts second seconds same induction =>
      rw [sweep, same]
      have leftPassed := Passes.head left leftAscending
      have rightPassed := Passes.same right same rightAscending
      exact .step leftPassed rightPassed (.inl List.mem_cons_self)
        (induction leftPassed.ascending rightPassed.ascending)

end Sweep

/-! ## Sets -/

/-- Whether the cuts of a set stand in ascending order. -/
def IsAscending (range : Range) : Prop := Ascending range.cuts

section Operations

variable {left right : Range} (leftAscending : left.IsAscending)
  (rightAscending : right.IsAscending)
include leftAscending rightAscending

theorem swept_combine (operation : Bool → Bool → Bool) :
    Swept operation left.holdsLowest right.holdsLowest left.cuts right.cuts
      (combine operation left right).cuts :=
  swept_sweep leftAscending rightAscending

theorem contains_union (version : Version) :
    (left.union right).contains version = (left.contains version || right.contains version) :=
  (swept_combine leftAscending rightAscending (· || ·)).holds_eq version

theorem contains_intersection (version : Version) :
    (left.intersection right).contains version =
      (left.contains version && right.contains version) :=
  (swept_combine leftAscending rightAscending (· && ·)).holds_eq version

end Operations

theorem contains_complement (range : Range) (version : Version) :
    range.complement.contains version = !range.contains version :=
  holds_not range.holdsLowest range.cuts

theorem contains_atLeast (lowest version : Version) :
    (atLeast lowest).contains version = decide (lowest ≤ version) := by
  change holds false [⟨lowest, false⟩] version = _
  rw [holds_cons (allAbove_nil _), Cut.isBelow_below]
  by_cases within : lowest ≤ version <;> simp [within, holds]

theorem contains_below (upper version : Version) :
    (below upper).contains version = decide (version < upper) := by
  change (atLeast upper).complement.contains version = _
  rw [contains_complement, contains_atLeast, ← decide_not]
  exact decide_eq_decide.mpr not_le

section Between

variable {first last : Version} (before : first < last)
include before

theorem allAbove_between : AllAbove ⟨first, false⟩ [⟨last, false⟩] := by
  intro other member
  cases List.mem_singleton.mp member
  exact Ordering.then_eq_lt.mpr (.inl before)

theorem contains_between (version : Version) :
    (between first last).contains version = decide (first ≤ version ∧ version < last) := by
  change holds false [⟨first, false⟩, ⟨last, false⟩] version = _
  rw [holds_cons (allAbove_between before), Cut.isBelow_below]
  by_cases within : first ≤ version
  · have upper : holds true [⟨last, false⟩] version = decide (version < last) :=
      contains_below last version
    simp [within, upper]
  · simp [within]

end Between

/-! ## Sets of releases -/

/-- Whether a set is well formed and holds the releases of which something is true. -/
structure Means (range : Range) (meaning : Version → Prop) : Prop where
  ascending : range.IsAscending
  contains_iff : ∀ version : Version, version.preRelease = [] →
    (range.contains version = true ↔ meaning version)

theorem means_empty : empty.Means fun _ => False where
  ascending := .nil
  contains_iff _ _ := by simp [empty, contains]

theorem means_full : full.Means fun _ => True where
  ascending := .nil
  contains_iff _ _ := by simp [full, contains]

theorem means_atLeast (lowest : Version) : (atLeast lowest).Means (lowest ≤ ·) where
  ascending := List.pairwise_singleton _ _
  contains_iff version _ := by rw [contains_atLeast, decide_eq_true_iff]

theorem means_below (upper : Version) : (below upper).Means (· < upper) where
  ascending := List.pairwise_singleton _ _
  contains_iff version _ := by rw [contains_below, decide_eq_true_iff]

theorem means_between {first last : Version} (before : first < last) :
    (between first last).Means fun version => first ≤ version ∧ version < last where
  ascending := ascending_cons.mpr ⟨allAbove_between before, List.pairwise_singleton _ _⟩
  contains_iff version _ := by rw [contains_between before, decide_eq_true_iff]

namespace Means

variable {left right : Range} {first second : Version → Prop}

theorem congr (means : left.Means first) (same : ∀ version : Version, version.preRelease = [] →
    (first version ↔ second version)) : left.Means second where
  ascending := means.ascending
  contains_iff version release :=
    (means.contains_iff version release).trans (same version release)

theorem complement (means : left.Means first) :
    left.complement.Means fun version => ¬ first version where
  ascending := means.ascending
  contains_iff version release := by
    rw [contains_complement, Bool.not_eq_true', ← Bool.not_eq_true,
      means.contains_iff version release]

theorem union (means : left.Means first) (others : right.Means second) :
    (left.union right).Means fun version => first version ∨ second version where
  ascending := (swept_combine means.ascending others.ascending _).ascending
  contains_iff version release := by
    rw [contains_union means.ascending others.ascending, Bool.or_eq_true,
      means.contains_iff version release, others.contains_iff version release]

theorem intersection (means : left.Means first) (others : right.Means second) :
    (left.intersection right).Means fun version => first version ∧ second version where
  ascending := (swept_combine means.ascending others.ascending _).ascending
  contains_iff version release := by
    rw [contains_intersection means.ascending others.ascending, Bool.and_eq_true,
      means.contains_iff version release, others.contains_iff version release]

end Means

end Range

end SolutionLists.Version
