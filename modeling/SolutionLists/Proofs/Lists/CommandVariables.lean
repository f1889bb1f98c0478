import SolutionLists.Lists.Super
import SolutionLists.Proofs.Text

namespace SolutionLists.Lists

/-! What the commands of a solution see of their files. Placeholders become variables, and all
commands share the variables: the lines are run here one by one, as far as they set some. -/

/-! ## Placeholders -/

/-- The files of a command that a placeholder may be about. -/
inductive FileSide where
  | input
  | output
deriving DecidableEq, Repr

namespace FileSide

def word : FileSide → String
  | input => "input"
  | output => "output"

def variableName : FileSide → String
  | input => "INPUT"
  | output => "OUTPUT"

def files (side : FileSide) (execute : Execute) : List String :=
  match side with
  | input => execute.input
  | output => execute.output

def paths (side : FileSide) (execute : Execute) : List String :=
  Path.anchorAll "" (side.files execute)

end FileSide

/-- A placeholder for all files of one side, or for the one whose number is in brackets. -/
structure Placeholder where
  side : FileSide
  digits : Option String
  spelled : ∀ text ∈ digits, text ≠ "" ∧ text.toList.all Text.isDigit = true

theorem toString_injective {first second : Nat} (same : toString first = toString second) :
    first = second := by
  have digits : Nat.toDigits 10 first = Nat.toDigits 10 second := by
    rw [Nat.toString_eq_ofList_toDigits, Nat.toString_eq_ofList_toDigits] at same
    exact String.ofList_inj.mp same
  rw [← Nat.ofDigitChars_ten_toDigits (n := first), digits, Nat.ofDigitChars_ten_toDigits]

namespace Placeholder

def written (placeholder : Placeholder) : String :=
  "$" ++ placeholder.side.word ++
    (match placeholder.digits with
      | none => ""
      | some digits => "(" ++ digits ++ ")") ++ "$"

def variableName (placeholder : Placeholder) : String :=
  placeholder.side.variableName ++
    match placeholder.digits with
    | none => ""
    | some digits => "_" ++ digits

/-- What a command itself gives for a placeholder: the files of the side, if there are any, or
the one whose number is written with these digits. -/
def files? (placeholder : Placeholder) (execute : Execute) : Option (List String) :=
  let paths := placeholder.side.paths execute
  match placeholder.digits with
  | none => if paths = [] then none else some paths
  | some digits =>
      paths.zipIdx.findSome? fun (path, index) =>
        if digits = toString index then some [path] else none

theorem files?_numbered {placeholder : Placeholder} {index : Nat}
    (numbered : placeholder.digits = some (toString index)) (execute : Execute) :
    placeholder.files? execute =
      ((placeholder.side.paths execute)[index]?).map fun path => [path] := by
  have counted : ∀ (paths : List String) (start index : Nat),
      ((paths.zipIdx start).findSome? fun (path, current) =>
        if toString (start + index) = toString current then some [path] else none) =
      paths[index]?.map fun path => [path] := by
    intro paths
    induction paths with
    | nil => exact fun _ _ => rfl
    | cons path rest induction =>
        intro start index
        rw [List.zipIdx_cons, List.findSome?_cons]
        cases index with
        | zero => simp
        | succ index =>
            have apart : toString (start + (index + 1)) ≠ toString start := by
              intro same
              have equal := toString_injective same
              omega
            have shifted : start + (index + 1) = start + 1 + index := by omega
            dsimp only
            rw [if_neg apart, shifted]
            exact induction (start + 1) index
  rw [files?, numbered]
  have found := counted (placeholder.side.paths execute) 0 index
  rw [Nat.zero_add] at found
  exact found

end Placeholder

/-- A part of the text of a command. -/
inductive RunPiece where
  | char (single : Char)
  | placeholder (known : Placeholder)

namespace RunPiece

def written : RunPiece → List Char
  | .char single => [single]
  | .placeholder known => known.written.toList

def expanded : RunPiece → List Char
  | .char single => [single]
  | .placeholder known => (Path.variableReference known.variableName).toList

/-- No placeholder that is written between the pieces has been passed over. -/
def Thorough : List RunPiece → Prop
  | [] => True
  | piece :: rest =>
      (∀ single, piece = .char single → ∀ placeholder : Placeholder,
        ¬ placeholder.written.toList <+: single :: rest.flatMap written) ∧ Thorough rest

end RunPiece

theorem takeWhile_isDigit {digits : List Char} (areDigits : digits.all Text.isDigit = true)
    (rest : List Char) :
    (digits ++ ')' :: rest).takeWhile Text.isDigit = digits := by
  rw [List.takeWhile_append_of_pos (List.all_eq_true.mp areDigits),
    List.takeWhile_cons_of_neg (by decide), List.append_nil]

theorem placeholder?_written (placeholder : Placeholder) (rest : List Char) :
    placeholder? (placeholder.written.toList ++ rest) =
      some (placeholder.variableName.toList, placeholder.written.toList.length) := by
  obtain ⟨side, digits, spelled⟩ := placeholder
  cases digits with
  | none =>
      cases side <;>
        simp [placeholder?, Placeholder.written, Placeholder.variableName, FileSide.word,
          FileSide.variableName]
  | some digits =>
      obtain ⟨something, areDigits⟩ := spelled digits rfl
      have read := takeWhile_isDigit areDigits ('$' :: rest)
      obtain ⟨first, others, chars⟩ : ∃ first others, digits.toList = first :: others :=
        List.exists_cons_of_ne_nil (mt String.toList_eq_nil_iff.mp something)
      cases side <;>
        simp [placeholder?, Placeholder.written, Placeholder.variableName, FileSide.word,
          FileSide.variableName, read]
      all_goals
        rw [chars]
        simp
        omega

theorem exists_unnumbered (side : FileSide) (ending : List Char) :
    ∃ placeholder : Placeholder,
      placeholder.written.toList <+: '$' :: (side.word.toList ++ '$' :: ending) := by
  refine ⟨⟨side, none, fun text same => by cases same⟩, ending, ?_⟩
  simp [Placeholder.written]

theorem exists_numbered (side : FileSide) {rest ending : List Char}
    (something : rest.takeWhile Text.isDigit ≠ [])
    (ends : rest.drop (rest.takeWhile Text.isDigit).length = ')' :: '$' :: ending) :
    ∃ placeholder : Placeholder,
      placeholder.written.toList <+: '$' :: (side.word.toList ++ '(' :: rest) := by
  have areDigits : (rest.takeWhile Text.isDigit).all Text.isDigit = true := List.all_takeWhile
  have whole : rest.takeWhile Text.isDigit ++ ')' :: '$' :: ending = rest := by
    rw [← ends]
    exact List.prefix_iff_eq_append.mp (List.takeWhile_prefix _)
  refine ⟨⟨side, some (String.ofList (rest.takeWhile Text.isDigit)), ?_⟩, ending, ?_⟩
  · intro text same
    cases same
    exact ⟨by simpa using something, by simp⟩
  · simpa [Placeholder.written] using whole

theorem exists_placeholder {chars : List Char} {found : List Char × Nat}
    (read : placeholder? chars = some found) :
    ∃ placeholder : Placeholder, placeholder.written.toList <+: chars := by
  unfold placeholder? at read
  dsimp only at read
  split at read
  case h_1 =>
    split at read
    case h_1 => exact exists_unnumbered .input _
    case h_2 =>
      split at read
      case h_1 same ends => exact exists_numbered .input (same ▸ List.cons_ne_nil _ _) ends
      case h_2 => cases read
    case h_3 => cases read
  case h_2 =>
    split at read
    case h_1 => exact exists_unnumbered .output _
    case h_2 =>
      split at read
      case h_1 same ends => exact exists_numbered .output (same ▸ List.cons_ne_nil _ _) ends
      case h_2 => cases read
    case h_3 => cases read
  case h_3 => cases read

/-! ## The text of a command -/

theorem Placeholder.written_eq_cons (placeholder : Placeholder) :
    ∃ tail, placeholder.written.toList = '$' :: tail := by
  rw [written, String.append_assoc, String.append_assoc, String.toList_append]
  exact ⟨_, rfl⟩

theorem expandFrom_skipped (skipped rest : List Char) :
    expandFrom skipped.length (skipped ++ rest) = expandFrom 0 rest := by
  induction skipped with
  | nil => rfl
  | cons head tail induction => exact induction

theorem expandFrom_written (placeholder : Placeholder) (rest : List Char) :
    expandFrom 0 (placeholder.written.toList ++ rest) =
      (Path.variableReference placeholder.variableName).toList ++ expandFrom 0 rest := by
  obtain ⟨tail, chars⟩ := placeholder.written_eq_cons
  have read := placeholder?_written placeholder rest
  rw [chars, List.cons_append] at read ⊢
  rw [expandFrom]
  simp only [read, List.length_cons, Nat.add_sub_cancel, String.ofList_toList]
  rw [expandFrom_skipped]

theorem exists_pieces (chars : List Char) : ∃ pieces : List RunPiece,
    RunPiece.Thorough pieces ∧ chars = pieces.flatMap RunPiece.written ∧
      expandFrom 0 chars = pieces.flatMap RunPiece.expanded := by
  -- A placeholder is longer than one character, so the list does not shrink by its constructor.
  induction length : chars.length using Nat.strongRecOn generalizing chars with
  | ind length induction =>
      subst length
      cases chars with
      | nil => exact ⟨[], trivial, rfl, rfl⟩
      | cons head rest =>
          cases read : placeholder? (head :: rest) with
          | some found =>
              obtain ⟨placeholder, ending, whole⟩ := exists_placeholder read
              have shorter : ending.length < (head :: rest).length := by
                obtain ⟨tail, start⟩ := placeholder.written_eq_cons
                rw [← whole, start, List.length_append, List.length_cons]
                omega
              obtain ⟨pieces, thorough, written, expanded⟩ :=
                induction _ shorter ending rfl
              refine ⟨.placeholder placeholder :: pieces, ⟨?_, thorough⟩, ?_, ?_⟩
              · intro single same
                cases same
              · rw [← whole, List.flatMap_cons, ← written]
                rfl
              · rw [← whole, expandFrom_written, List.flatMap_cons, ← expanded]
                rfl
          | none =>
              obtain ⟨pieces, thorough, written, expanded⟩ :=
                induction _ (Nat.lt_succ_self _) rest rfl
              refine ⟨.char head :: pieces, ⟨?_, thorough⟩, ?_, ?_⟩
              · intro single same placeholder starts
                cases same
                obtain ⟨ending, whole⟩ := written ▸ starts
                rw [← whole, placeholder?_written] at read
                cases read
              · rw [List.flatMap_cons, ← written]
                rfl
              · rw [expandFrom, read, List.flatMap_cons, ← expanded]
                rfl

/-! ## Running the lines

A line is taken as it was put together, whatever its texts are; their own characters, and
references to variables in them, are not looked into. -/

/-- What has been set, the newest first, and the variable whose texts are being listed. -/
structure Variables where
  values : List (String × List String) := []
  opened : Option (String × List String) := none
deriving DecidableEq, Repr

def inside? (start ending text : String) : Option String :=
  (Text.stripStart? text start).bind (Text.stripEnd? · ending)

namespace Variables

/-- Run one line. Only statements that set a variable have an effect, and a text is all that
stands between the double quotes at its two ends. -/
def line (state : Variables) (line : String) : Variables :=
  match state.opened with
  | some (name, texts) =>
      if line = ")" then { values := (name, texts) :: state.values }
      else
        match inside? "  \"" "\"" line with
        | some text => { state with opened := some (name, texts ++ [text]) }
        | none => state
  | none =>
      match Text.stripStart? line "set(" with
      | none => state
      | some rest =>
          match Text.splitOnce ' ' rest with
          | none => { state with opened := some (rest, []) }
          | some (name, value) =>
              match inside? "\"" "\")" value with
              | some text => { values := (name, [text]) :: state.values }
              | none => state

/-- The texts that a variable has behind some lines, if it has been set by them. -/
def value? (lines : Lines) (name : String) : Option (List String) :=
  (lines.foldl line {}).values.lookup name

end Variables

theorem inside?_append (start inner ending : String) :
    inside? start ending (start ++ inner ++ ending) = some inner := by
  rw [inside?, String.append_assoc, Text.stripStart_append, Option.bind_some,
    Text.stripEnd_append]

/-- Lines that set some variables one after another, whatever has been set before. -/
def Sets (lines : Lines) (assigned : List (String × List String)) : Prop :=
  ∀ values, lines.foldl Variables.line { values } = { values := assigned.reverse ++ values }

namespace Sets

variable {lines : Lines} {assigned : List (String × List String)}

theorem nil : Sets [] [] :=
  fun _ => rfl

theorem append {rest : Lines} {further : List (String × List String)}
    (first : Sets lines assigned) (second : Sets rest further) :
    Sets (lines ++ rest) (assigned ++ further) := by
  intro values
  rw [List.foldl_append, first values, second, List.reverse_append, List.append_assoc]

theorem flatMap {α : Type} {items : List α} {part : α → Lines}
    {sets : α → List (String × List String)} (each : ∀ item ∈ items, Sets (part item) (sets item)) :
    Sets (items.flatMap part) (items.flatMap sets) :=
  Text.related_flatMap nil append each

theorem others (apart : ∀ line ∈ lines, line.toList.head? ≠ some 's') : Sets lines [] := by
  intro values
  induction lines with
  | nil => rfl
  | cons line rest induction =>
      have notSet : Text.stripStart? line "set(" = none := by
        refine Text.stripStart_eq_none fun rest same => apart line List.mem_cons_self ?_
        simp [same]
      have unchanged : Variables.line { values } line = { values } := by
        simp only [Variables.line, notSet]
      rw [List.foldl_cons, unchanged]
      exact induction fun other member => apart other (List.mem_cons_of_mem line member)

theorem single {name : String} (oneWord : ' ' ∉ name.toList) (text : String) :
    Sets ["set(" ++ name ++ " " ++ quoted text ++ ")"] [(name, [text])] := by
  have line : "set(" ++ name ++ " " ++ quoted text ++ ")" =
      "set(" ++ (name ++ String.singleton ' ' ++ ("\"" ++ text ++ "\")")) := by
    simp [quoted, ← String.toList_inj]
  intro values
  rw [line, List.foldl_cons, List.foldl_nil]
  simp only [Variables.line, Text.stripStart_append, Text.splitOnce_append oneWord,
    inside?_append]
  rfl

theorem list {name : String} (oneWord : ' ' ∉ name.toList) (texts : List String) :
    Sets (("set(" ++ name) :: Lines.indent "  " (texts.map quoted) ++ [")"]) [(name, texts)] := by
  intro values
  have opens : Variables.line { values } ("set(" ++ name) =
      { values, opened := some (name, []) } := by
    simp only [Variables.line, Text.stripStart_append, Text.splitOnce_eq_none oneWord]
  have lists : ∀ listed : List String,
      (Lines.indent "  " (texts.map quoted)).foldl Variables.line
          { values, opened := some (name, listed) } =
        { values, opened := some (name, listed ++ texts) } := by
    induction texts with
    | nil =>
        intro listed
        rw [List.append_nil]
        rfl
    | cons text rest induction =>
        intro listed
        have line : "  " ++ quoted text = "  \"" ++ text ++ "\"" := by
          simp [quoted, ← String.toList_inj]
        have goesOn : "  " ++ quoted text ≠ ")" := by
          intro same
          simp [quoted, ← String.toList_inj] at same
        have adds : Variables.line { values, opened := some (name, listed) } ("  " ++ quoted text) =
            { values, opened := some (name, listed ++ [text]) } := by
          simp only [Variables.line, if_neg goesOn]
          rw [line, inside?_append]
        rw [List.map_cons, Lines.indent, List.map_cons, List.foldl_cons, adds]
        have others := induction (listed ++ [text])
        rw [List.append_assoc] at others
        exact others
  rw [List.cons_append, List.foldl_cons, opens, List.foldl_append, lists]
  rfl

end Sets

/-! ## What a command sets -/

/-- The variables of one side of a command, with their texts. -/
def FileSide.assignments (side : FileSide) (execute : Execute) : List (String × List String) :=
  let paths := side.paths execute
  if paths = [] then []
  else
    (side.variableName, paths) :: paths.zipIdx.map fun (path, index) =>
      (side.variableName ++ "_" ++ toString index, [path])

def commandAssignments (execute : Execute) : List (String × List String) :=
  FileSide.input.assignments execute ++ FileSide.output.assignments execute

theorem space_not_mem_toString (index : Nat) : ' ' ∉ (toString index).toList := by
  rw [Nat.toString_eq_ofList_toDigits, String.toList_ofList]
  exact fun member => absurd (Nat.isDigit_of_mem_toDigits (by decide) (by decide) member)
    (by decide)

theorem sets_fileList (side : FileSide) (execute : Execute) :
    Sets (fileList side.variableName (side.files execute)) (side.assignments execute) := by
  have oneWord : ' ' ∉ side.variableName.toList := by
    cases side <;> decide
  have empty : side.paths execute = [] ↔ side.files execute = [] :=
    List.map_eq_nil_iff
  rw [fileList, FileSide.assignments]
  by_cases nothing : side.files execute = []
  · rw [if_pos nothing, if_pos (empty.mpr nothing)]
    exact .nil
  · rw [if_neg nothing, if_neg (mt empty.mp nothing)]
    have numbered : ∀ index : Nat, ' ' ∉ (side.variableName ++ "_" ++ toString index).toList := by
      intro index
      rw [String.toList_append, String.toList_append, List.mem_append, List.mem_append, not_or,
        not_or]
      exact ⟨⟨oneWord, by decide⟩, space_not_mem_toString index⟩
    refine (Sets.list oneWord _).append ?_
    rw [List.map_eq_flatMap, List.map_eq_flatMap]
    exact .flatMap fun item _ => .single (numbered item.2) item.1

theorem sets_commandSettings (execute : Execute) :
    Sets (commandSettings execute) (commandAssignments execute) := by
  have title : Sets ["", "# Execute: " ++ execute.name] [] := by
    apply Sets.others
    simp
  exact (title.append (sets_fileList .input execute)).append (sets_fileList .output execute)

theorem sets_commandTarget (execute : Execute) : Sets (commandTarget execute) [] := by
  apply Sets.others
  unfold commandTarget
  dsimp only
  split <;> simp

theorem sets_executeCommands (executes : List Execute) :
    Sets (executeCommands executes) (executes.flatMap commandAssignments) := by
  refine .flatMap fun execute _ => ?_
  have whole := (sets_commandSettings execute).append (sets_commandTarget execute)
  rw [List.append_nil] at whole
  exact whole

/-! ## What a variable is then -/

theorem FileSide.variableName_append_inj {own side : FileSide} {first second : String} :
    own.variableName ++ first = side.variableName ++ second ↔ own = side ∧ first = second := by
  constructor
  · intro same
    have chars := congrArg String.toList same
    rw [String.toList_append, String.toList_append] at chars
    cases own <;> cases side <;> simp_all [variableName]
  · rintro ⟨rfl, rfl⟩
    rfl

theorem Placeholder.variableName_eq_all {placeholder : Placeholder} {side : FileSide} :
    placeholder.variableName = side.variableName ↔
      placeholder.side = side ∧ placeholder.digits = none := by
  have name : side.variableName = side.variableName ++ "" := String.append_empty.symm
  rw [variableName, name, FileSide.variableName_append_inj]
  cases placeholder.digits <;> simp

theorem Placeholder.variableName_eq_numbered {placeholder : Placeholder} {side : FileSide}
    {number : String} :
    placeholder.variableName = side.variableName ++ "_" ++ number ↔
      placeholder.side = side ∧ placeholder.digits = some number := by
  rw [variableName, String.append_assoc, FileSide.variableName_append_inj]
  cases placeholder.digits <;> simp

/-- Where no two elements are both found, it makes no difference from which end they are
looked through. -/
theorem findSome?_reverse {α β : Type} {found? : α → Option β} {items : List α}
    (once : items.Pairwise fun first second => found? first = none ∨ found? second = none) :
    items.reverse.findSome? found? = items.findSome? found? := by
  induction items with
  | nil => rfl
  | cons item rest induction =>
      have parts := List.pairwise_cons.mp once
      rw [List.reverse_cons, List.findSome?_append, induction parts.2]
      simp only [List.findSome?_cons, List.findSome?_nil]
      cases own : found? item with
      | none => exact Option.or_none
      | some value =>
          have others : rest.findSome? found? = none := by
            rw [List.findSome?_eq_none_iff]
            intro other member
            exact (parts.1 other member).resolve_left (by simp [own])
          rw [others]
          rfl

theorem findSome?_numbered (digits : String) (paths : List String) :
    (paths.zipIdx.reverse.findSome? fun item =>
        if digits = toString item.2 then some [item.1] else none) =
      paths.zipIdx.findSome? fun item =>
        if digits = toString item.2 then some [item.1] else none := by
  have distinct : (paths.zipIdx.map Prod.snd).Nodup := by
    rw [List.zipIdx_map_snd]
    exact List.nodup_range'
  refine findSome?_reverse ((List.pairwise_map.mp distinct).imp fun {first second} apart => ?_)
  by_cases here : digits = toString first.2
  · refine .inr (if_neg fun there => apart ?_)
    exact toString_injective (here.symm.trans there)
  · exact .inl (if_neg here)

theorem lookup_assignments (placeholder : Placeholder) (side : FileSide) (execute : Execute) :
    (side.assignments execute).reverse.lookup placeholder.variableName =
      if placeholder.side = side then placeholder.files? execute else none := by
  by_cases nothing : side.paths execute = []
  · have gone : (side.assignments execute).reverse = [] := by
      rw [FileSide.assignments, if_pos nothing]
      rfl
    rw [gone, List.lookup_nil]
    split
    case isFalse => rfl
    case isTrue same =>
      subst same
      rw [Placeholder.files?]
      cases placeholder.digits <;> simp [nothing]
  · -- The variable of all files is set in front of the numbered ones, so it is met last.
    have whole : (side.assignments execute).reverse.lookup placeholder.variableName =
        ((side.paths execute).zipIdx.reverse.findSome? fun item =>
          if placeholder.side = side ∧ placeholder.digits = some (toString item.2) then
            some [item.1]
          else none).or
        (if placeholder.side = side ∧ placeholder.digits = none then
          some (side.paths execute)
        else none) := by
      rw [FileSide.assignments, if_neg nothing, List.lookup_eq_findSome?, List.reverse_cons,
        List.findSome?_append, ← List.map_reverse, List.findSome?_map]
      simp only [Function.comp_def, List.findSome?_singleton, beq_iff_eq,
        Placeholder.variableName_eq_all, Placeholder.variableName_eq_numbered]
    rw [whole, Placeholder.files?]
    by_cases same : placeholder.side = side
    · subst same
      cases placeholder.digits with
      | none =>
          have unnumbered : ((placeholder.side.paths execute).zipIdx.reverse.findSome? fun item =>
              if placeholder.side = placeholder.side ∧ none = some (toString item.2) then
                some [item.1]
              else none) = none := by
            simp
          rw [unnumbered]
          simp [nothing]
      | some digits => simpa using findSome?_numbered digits _
    · simp [same]

theorem lookup_commandAssignments (placeholder : Placeholder) (execute : Execute) :
    (commandAssignments execute).reverse.lookup placeholder.variableName =
      placeholder.files? execute := by
  rw [commandAssignments, List.reverse_append, List.lookup_append, lookup_assignments,
    lookup_assignments]
  cases placeholder.side <;> simp

theorem lookup_flatMap_commandAssignments (placeholder : Placeholder) (executes : List Execute) :
    (executes.flatMap commandAssignments).reverse.lookup placeholder.variableName =
      executes.reverse.findSome? placeholder.files? := by
  induction executes with
  | nil => rfl
  | cons execute rest induction =>
      rw [List.flatMap_cons, List.reverse_append, List.lookup_append, induction,
        lookup_commandAssignments, List.reverse_cons, List.findSome?_append]
      simp only [List.findSome?_cons, List.findSome?_nil]
      cases placeholder.files? execute <;> rfl

theorem value?_commandSettings (before : List Execute) (execute : Execute)
    (placeholder : Placeholder) :
    Variables.value? (executeCommands before ++ commandSettings execute)
        placeholder.variableName =
      (execute :: before.reverse).findSome? placeholder.files? := by
  have run := (sets_executeCommands before).append (sets_commandSettings execute)
  have start := run []
  rw [List.append_nil, List.reverse_append] at start
  rw [Variables.value?]
  change ((executeCommands before ++ commandSettings execute).foldl Variables.line
    { values := [] }).values.lookup _ = _
  rw [start, List.lookup_append, lookup_commandAssignments, lookup_flatMap_commandAssignments,
    List.findSome?_cons]
  cases placeholder.files? execute <;> rfl

/-- The files that commands see. Each command is run with its text as it is, but for its
placeholders, which become variables. A variable stands for what the command itself gives, and
where it gives nothing, for what the last one before it gave that gave something; so it is the
command's own just when the command gives something or none before it did. -/
theorem commands_see_latest_files (before after : List Execute) (execute : Execute) :
    executeCommands (before ++ execute :: after) =
        executeCommands before ++ commandSettings execute ++ commandTarget execute ++
          executeCommands after ∧
      "  COMMAND " ++ expandPlaceholders execute.run ∈ commandTarget execute ∧
      (∃ pieces : List RunPiece, RunPiece.Thorough pieces ∧
        execute.run.toList = pieces.flatMap RunPiece.written ∧
        (expandPlaceholders execute.run).toList = pieces.flatMap RunPiece.expanded) ∧
      ∀ placeholder : Placeholder,
        let seen := Variables.value? (executeCommands before ++ commandSettings execute)
          placeholder.variableName
        seen = (execute :: before.reverse).findSome? placeholder.files? ∧
          (seen = placeholder.files? execute ↔
            placeholder.files? execute ≠ none ∨
              ∀ earlier ∈ before, placeholder.files? earlier = none) ∧
          ∀ index : Nat, placeholder.digits = some (toString index) →
            placeholder.files? execute =
              ((placeholder.side.paths execute)[index]?).map fun path => [path] := by
  refine ⟨?_, ?_, ?_, fun placeholder => ?_⟩
  · simp [executeCommands, executeCommand]
  · unfold commandTarget
    dsimp only
    split <;> simp
  · obtain ⟨pieces, thorough, written, expanded⟩ := exists_pieces execute.run.toList
    refine ⟨pieces, thorough, written, ?_⟩
    rw [expandPlaceholders, String.toList_ofList]
    exact expanded
  · have seen := value?_commandSettings before execute placeholder
    refine ⟨seen, ?_, fun index numbered => Placeholder.files?_numbered numbered execute⟩
    rw [seen, List.findSome?_cons]
    cases own : placeholder.files? execute with
    | none => simp
    | some files => simp

/-- A command without inputs sees those of the command before it. -/
theorem command_sees_files_of_earlier :
    let archive : Execute :=
      { name := "Archive", run := "pack $output$ $input$", input := ["out/a.bin"],
        output := ["out/a.zip"] }
    let report : Execute :=
      { name := "Report", run := "echo $input$", output := ["out/report.txt"] }
    let inputs : Placeholder := ⟨.input, none, fun text same => by cases same⟩
    expandPlaceholders report.run = "echo " ++ Path.variableReference inputs.variableName ∧
      inputs.files? report = none ∧
      Variables.value? (executeCommands [archive] ++ commandSettings report)
        inputs.variableName = some [Path.solutionRoot ++ "/out/a.bin"] := by
  intro archive report inputs
  have expanded : expandPlaceholders report.run =
      "echo " ++ Path.variableReference inputs.variableName := by
    decide +kernel
  have nothing : inputs.files? report = none := by decide
  refine ⟨expanded, nothing, ?_⟩
  rw [value?_commandSettings, List.findSome?_cons, nothing]
  decide +kernel

end SolutionLists.Lists
