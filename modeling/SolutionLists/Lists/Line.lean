namespace SolutionLists

/-! Generated text by lines. Statements follow one another, so each line of a
statement is written behind a line break. -/

abbrev Lines := List String

namespace Lines

def text (lines : Lines) : String :=
  String.join (lines.map ("\n" ++ ·))

def file (first : String) (lines : Lines) : String :=
  first ++ text lines ++ "\n"

def indent (margin : String) (lines : Lines) : Lines :=
  lines.map (margin ++ ·)

theorem text_append (first second : Lines) :
    text (first ++ second) = text first ++ text second := by
  simp [text, String.join_append]

theorem exists_around (first : String) {part lines : Lines} (inside : part <:+: lines) :
    ∃ before after, file first lines = before ++ part.text ++ after := by
  rcases inside with ⟨start, rest, whole⟩
  refine ⟨first ++ text start, text rest ++ "\n", ?_⟩
  rw [← whole]
  simp only [file, text_append, String.append_assoc]

end Lines

def quoted (text : String) : String :=
  "\"" ++ text ++ "\""

end SolutionLists
