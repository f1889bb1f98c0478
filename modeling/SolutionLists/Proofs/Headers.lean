import SolutionLists.Proofs.Includes
import SolutionLists.Proofs.Path.KeptPlace

namespace SolutionLists

/-! The directories that headers make visible. The directory is taken from the path of a
header as it is written; that slashes may lean the other way, and that a drive or a variable
may stand in front, is looked at only when the directory is hung on the root of the solution. -/

/-- A header that the build uses, with the name that its path ends in. -/
structure File.IsHeader (file : File) (name : Path.Segment) : Prop where
  role : file.role = .header
  used : file.isTemplate = false
  ends : Path.EndsInName file.path name

namespace Classification

/-- What a file makes visible is the directory it lies in, whatever the directory of its
context: its own path, hung on the root, up to the last slash. -/
def ShowsOwnDirectory (file : File) : Prop :=
  ∀ root, Path.place (includeDirectory root file) =
    Path.place (Path.directory (Path.anchor root file.path))

/-- What becomes of the directory of a header. -/
structure HeaderDirectory (file : File) : Prop where
  visible : ∀ root files, file ∈ files →
    (file.language, includeDirectory root file) ∈ ((ofFiles root files).includes.get
      (includeScope (!files.any (·.isPlainSource)) file)).pairs
  exactly : ShowsOwnDirectory file ↔
    Path.place (Path.forwardSlashes (Path.parent file.path)) =
      Path.place (Path.directory (Path.forwardSlashes file.path))
  plain : '\\' ∉ file.path.toList →
    (ShowsOwnDirectory file ↔ Path.KeepsPlace (Path.directory file.path))
  mixed : ∀ before last, file.path.toList.splitOn '/' = before ++ [last] →
    '\\' ∉ last → Path.ascend ∉ before →
    Path.isAnchored (Path.forwardSlashes (Path.parent file.path)) =
      Path.isAnchored (Path.forwardSlashes file.path) → ShowsOwnDirectory file
  /-- Behind backslashes alone, a header lies in the directory of its context. -/
  single : '/' ∉ file.path.toList →
    (∀ root, includeDirectory root file = Path.anchor root ".") ∧
      (ShowsOwnDirectory file ↔
        Path.place (Path.directory (Path.forwardSlashes file.path)) = ⟨.here, .here⟩)

theorem includeDirectory_of_header {file : File} (root : String) (role : file.role = .header) :
    includeDirectory root file = Path.anchor root (Path.parent file.path) := by
  rw [includeDirectory, if_pos role]

theorem showsOwnDirectory_iff {file : File} {name : Path.Segment} (header : file.IsHeader name) :
    ShowsOwnDirectory file ↔
      Path.place (Path.forwardSlashes (Path.parent file.path)) =
        Path.place (Path.directory (Path.forwardSlashes file.path)) := by
  rw [ShowsOwnDirectory, ← header.ends.place_anchor_iff]
  simp only [includeDirectory_of_header _ header.role]

theorem headers_show_directories {file : File} {name : Path.Segment}
    (header : file.IsHeader name) : HeaderDirectory file where
  visible root files member := by
    have counted : file.isInclude = true := by
      rw [File.isInclude, header.used, header.role]
      rfl
    exact (mem_includes_ofFiles root).mpr ⟨file, member, counted, rfl, rfl⟩
  exactly := showsOwnDirectory_iff header
  plain forward := by
    rw [showsOwnDirectory_iff header, header.ends.place_parent_iff_of_plain forward]
  mixed before last split plain level same :=
    (showsOwnDirectory_iff header).mpr (header.ends.place_parent_of_level split plain level same)
  single alone := by
    have context := header.ends.parent_of_single alone
    constructor
    · intro root
      rw [includeDirectory_of_header root header.role, context]
    · have here : Path.place (Path.forwardSlashes ".") = ⟨.here, .here⟩ := by decide
      rw [showsOwnDirectory_iff header, context, here, eq_comm]

/-- A header with slashes of both kinds in its path. -/
def portHeader : File := { path := "port\\gcc/api.h", category := "header" }

theorem headers_show_directories_mixed :
    portHeader.IsHeader "api.h".toList ∧ ShowsOwnDirectory portHeader := by
  have header : portHeader.IsHeader "api.h".toList :=
    ⟨by decide, by decide, ⟨["port".toList, "gcc".toList], by decide⟩, by decide, by decide⟩
  exact ⟨header, (headers_show_directories header).mixed ["port\\gcc".toList] "api.h".toList
    (by decide) (by decide) (by decide) (by decide)⟩

/-- A header behind a backslash makes the directory of its context visible instead. -/
theorem header_behind_backslash_shows_context :
    ¬ ∀ (root : String) (file : File) (name : Path.Segment), file.IsHeader name →
      Path.place (includeDirectory root file) =
        Path.place (Path.directory (Path.anchor root file.path)) := by
  intro always
  have header : File.IsHeader { path := "inc\\api.h", category := "header" } "api.h".toList :=
    ⟨by decide, by decide, ⟨["inc".toList], by decide⟩, by decide, by decide⟩
  exact absurd (always "project" _ _ header) (by decide)

end Classification

end SolutionLists
