import Mathlib.Data.List.Dedup
import Mathlib.Data.List.Induction
import SolutionLists.Settings

namespace SolutionLists

/-! Settings laid over one another. Of what several layers set the last one counts, and it does
not matter which layers are laid together first. -/

def ToolchainEntry.key (entry : ToolchainEntry) : String × String :=
  (entry.name, entry.version)

namespace Configuration

/-! ## Entries -/

variable {list entries : List ToolchainEntry} {entry : ToolchainEntry}

theorem addToolchain_eq (list : List ToolchainEntry) (entry : ToolchainEntry) :
    addToolchain list entry = list.filter (·.key ≠ entry.key) ++ [entry] := by
  unfold addToolchain
  congr 1
  apply List.filter_congr
  intro other _
  simp [ToolchainEntry.key, Prod.ext_iff]

/-- The entries of a list that are not declared again behind. -/
def lastEntries (entries : List ToolchainEntry) : List ToolchainEntry :=
  entries.pwFilter (·.key ≠ ·.key)

theorem lastEntries_cons (entry : ToolchainEntry) (later : List ToolchainEntry) :
    lastEntries (entry :: later) =
      if entry.key ∈ later.map (·.key) then lastEntries later else entry :: lastEntries later := by
  have apart : (∀ other ∈ lastEntries later, entry.key ≠ other.key) ↔
      entry.key ∉ later.map (·.key) := by
    rw [lastEntries, List.forall_mem_pwFilter]
    · simp [eq_comm]
    · intro first second third different
      by_contra same
      rw [not_or, not_not, not_not] at same
      exact different (same.1.trans same.2)
  split
  case isTrue again =>
    exact List.pwFilter_cons_of_neg fun different => apart.mp different again
  case isFalse once =>
    exact List.pwFilter_cons_of_pos (apart.mpr once)

theorem keys_lastEntries (entries : List ToolchainEntry) :
    (lastEntries entries).map (·.key) = (entries.map (·.key)).dedup :=
  (List.pwFilter_map (R := fun first second : String × String => first ≠ second)
    ToolchainEntry.key entries).symm

theorem mem_lastEntries :
    entry ∈ lastEntries entries ↔
      ∃ earlier later, entries = earlier ++ entry :: later ∧
        ∀ other ∈ later, other.key ≠ entry.key := by
  induction entries with
  | nil => simp [lastEntries]
  | cons head tail induction =>
      have parts : (∃ earlier later, head :: tail = earlier ++ entry :: later ∧
          ∀ other ∈ later, other.key ≠ entry.key) ↔
          (entry = head ∧ head.key ∉ tail.map (·.key)) ∨ entry ∈ lastEntries tail := by
        rw [induction]
        constructor
        · rintro ⟨earlier, later, split, last⟩
          rcases List.cons_eq_append_iff.mp split with ⟨rfl, here⟩ | ⟨before, rfl, behind⟩
          · cases here
            exact .inl ⟨rfl, by simpa using last⟩
          · exact .inr ⟨before, later, behind, last⟩
        · rintro (⟨rfl, last⟩ | ⟨earlier, later, rfl, last⟩)
          · exact ⟨[], tail, rfl, by simpa using last⟩
          · exact ⟨head :: earlier, later, rfl, last⟩
      rw [parts, lastEntries_cons]
      split
      case isTrue again => simp [again]
      case isFalse once => simp [once]

/-- Entries give way to later ones of the same key, and what is left of them stays in front. -/
theorem foldl_addToolchain (list entries : List ToolchainEntry) :
    entries.foldl addToolchain list =
      list.filter (·.key ∉ entries.map (·.key)) ++ lastEntries entries := by
  induction entries generalizing list with
  | nil => simp [lastEntries]
  | cons head tail induction =>
      rw [List.foldl_cons, induction, addToolchain_eq, List.filter_append, List.filter_filter,
        List.append_assoc, lastEntries_cons]
      congr 1
      · apply List.filter_congr
        intro other _
        simp only [List.map_cons, List.mem_cons, not_or, Bool.decide_and, Bool.and_comm]
      · split
        case isTrue again => rw [List.filter_cons_of_neg (by simpa using again)]; rfl
        case isFalse once => rw [List.filter_cons_of_pos (by simpa using once)]; rfl

theorem filter_foldl_addToolchain (key : String × String) (list entries : List ToolchainEntry) :
    (entries.foldl addToolchain list).filter (·.key ≠ key) =
      (entries.filter (·.key ≠ key)).foldl addToolchain (list.filter (·.key ≠ key)) := by
  induction entries generalizing list with
  | nil => rfl
  | cons head tail induction =>
      rw [List.foldl_cons, induction, addToolchain_eq, List.filter_append, List.filter_filter]
      by_cases ofKey : head.key = key
      · simp [ofKey]
      · have kept : ∀ rest : List ToolchainEntry,
            (head :: rest).filter (·.key ≠ key) = head :: rest.filter (·.key ≠ key) :=
          fun rest => List.filter_cons_of_pos (decide_eq_true ofKey)
        rw [kept, kept, List.filter_nil, List.foldl_cons, addToolchain_eq, List.filter_filter]
        simp only [Bool.and_comm]

theorem foldl_foldl_addToolchain (list middle entries : List ToolchainEntry) :
    (entries.foldl addToolchain middle).foldl addToolchain list =
      entries.foldl addToolchain (middle.foldl addToolchain list) := by
  induction entries using List.reverseRecOn with
  | nil => rfl
  | append_singleton entries entry induction =>
      rw [List.foldl_concat, List.foldl_concat, ← induction]
      generalize entries.foldl addToolchain middle = between
      rw [addToolchain_eq between, List.foldl_concat, addToolchain_eq, addToolchain_eq,
        filter_foldl_addToolchain, filter_foldl_addToolchain, List.filter_filter]
      simp only [Bool.and_self]

/-! ## Layers -/

theorem foldl_merge {field : Configuration → Option String}
    (merged : ∀ below above, field (merge below above) = (field above).or (field below))
    (start : Configuration) (layers : List Configuration) :
    field (layers.foldl merge start) =
      (layers.filterMap field).getLast?.or (field start) := by
  induction layers generalizing start with
  | nil => rfl
  | cons layer rest induction =>
      rw [List.foldl_cons, induction, merged, List.filterMap_cons]
      cases field layer with
      | none => rfl
      | some value =>
          dsimp only
          rw [List.getLast?_cons]
          cases (rest.filterMap field).getLast? <;> rfl

theorem toolchains_foldl_merge (start : Configuration) (layers : List Configuration) :
    (layers.foldl merge start).toolchains =
      (layers.flatMap (·.toolchains)).foldl addToolchain start.toolchains := by
  induction layers generalizing start with
  | nil => rfl
  | cons layer rest induction =>
      rw [List.foldl_cons, induction, List.flatMap_cons, List.foldl_append]
      rfl

theorem merge_assoc (below middle above : Configuration) :
    (below.merge middle).merge above = below.merge (middle.merge above) := by
  simp only [merge, Option.or_assoc, foldl_foldl_addToolchain]

theorem toolchains_of_layers (layers : List Configuration) :
    (layers.foldl merge {}).toolchains = lastEntries (layers.flatMap (·.toolchains)) := by
  rw [toolchains_foldl_merge, foldl_addToolchain]
  rfl

/-- A setting is that of the last layer in which it is given. Of the entries with one key the
last one is kept, where it stands, and none is kept twice. How the layers are laid together
makes no difference. -/
theorem layers_keep_last_word :
    (∀ layers : List Configuration,
      let merged := layers.foldl merge {}
      let declared := layers.flatMap (·.toolchains)
      merged.packRoot = (layers.filterMap (·.packRoot)).getLast? ∧
      merged.compilerRoot = (layers.filterMap (·.compilerRoot)).getLast? ∧
      merged.generator = (layers.filterMap (·.generator)).getLast? ∧
      (merged.toolchains.map (·.key)).Nodup ∧
      (∀ entry, entry ∈ merged.toolchains ↔
        ∃ earlier later, declared = earlier ++ entry :: later ∧
          ∀ other ∈ later, other.key ≠ entry.key) ∧
      -- Of several occurrences `dedup` keeps the last.
      merged.toolchains.map (·.key) = (declared.map (·.key)).dedup) ∧
    ∀ below middle above : Configuration,
      (below.merge middle).merge above = below.merge (middle.merge above) := by
  refine ⟨fun layers => ?_, merge_assoc⟩
  intro merged declared
  have kept : merged.toolchains = lastEntries declared := toolchains_of_layers layers
  have last : ∀ {field : Configuration → Option String},
      (∀ below above, field (merge below above) = (field above).or (field below)) →
      field {} = none → field merged = (layers.filterMap field).getLast? := by
    intro field layered unset
    rw [foldl_merge layered, unset, Option.or_none]
  have keys : merged.toolchains.map (·.key) = (declared.map (·.key)).dedup := by
    rw [kept, keys_lastEntries]
  refine ⟨?_, ?_, ?_, ?_, ?_, keys⟩
  · exact last (fun _ _ => rfl) rfl
  · exact last (fun _ _ => rfl) rfl
  · exact last (fun _ _ => rfl) rfl
  · rw [keys]
    exact List.nodup_dedup _
  · intro entry
    rw [kept]
    exact mem_lastEntries

-- An entry that is declared again moves behind those declared in between.
example :
    let entry (name path : String) : ToolchainEntry := { name, version := "1.0.0", path }
    let layer (entries : List ToolchainEntry) : Configuration := { toolchains := entries }
    ([layer [entry "A" "/a", entry "B" "/b"], layer [entry "B" "/b2", entry "A" "/a2"],
        layer [entry "C" "/c", entry "B" "/b"]].foldl merge {}).toolchains =
      [entry "A" "/a2", entry "C" "/c", entry "B" "/b"] := by
  decide

end Configuration

end SolutionLists
