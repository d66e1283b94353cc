import StreamControl.Text.Pieces

/-!
# Paths

A path is kept as it is written: the pieces of its text between the slashes. An empty piece in front
stands for the root, an empty one at the end says that a directory is meant, and those between mean
nothing. `.` and `..` are pieces like others here; where they lead depends on the disk.

`Path.parent` is about the text alone: it drops the last name and what leads nowhere around it.
-/

namespace StreamControl

abbrev Path := List String

namespace Path

/-- The path that a text names. -/
def ofText (text : String) : Path := (pieces '/' text.toList).map String.ofList

/-- The text of a path. -/
def toText (path : Path) : String := String.intercalate "/" path

/-- Whether a piece leads nowhere. -/
def isIdle (piece : String) : Bool := piece = "" || piece = "."

/-- Whether nothing is written. -/
def isBlank (path : Path) : Bool := path.all (· = "") && path.length ≤ 1

/-- Whether the path begins at the root. -/
def isAbsolute (path : Path) : Bool := path.head? = some "" && 1 < path.length

/-- The path of something in a directory. -/
def child (path : Path) (name : String) : Path := if path.isBlank then [name] else path ++ [name]

/-- The path without the pieces at its end that lead nowhere. The first piece stays. -/
def trimmed : Path → Path
  | [] => []
  | first :: rest => first :: (rest.reverse.dropWhile isIdle).reverse

/-- The path of the directory that is written in front of the last name. -/
def parent (path : Path) : Path := trimmed path.trimmed.dropLast

/-- The name at the end, if there is one. -/
def fileName? (path : Path) : Option String :=
  path.trimmed.getLast?.filter fun name => !isIdle name && name ≠ ".."

/-- The path without slashes at its end. -/
def withoutSlashes (path : Path) : Path := (path.reverse.dropWhile (· = "")).reverse

theorem length_trimmed_le (path : Path) : path.trimmed.length ≤ path.length := by
  cases path with
  | nil => simp [trimmed]
  | cons first rest =>
    have := (List.dropWhile_suffix isIdle (l := rest.reverse)).length_le
    simpa [trimmed] using this

theorem length_parent_lt {path : Path} (h : path.isBlank = false) :
    path.parent.length < path.length := by
  have h₁ := length_trimmed_le path.trimmed.dropLast
  have h₂ := length_trimmed_le path
  have h₃ : 0 < path.length := by
    cases path with
    | nil => simp [isBlank] at h
    | cons => simp
  simp only [List.length_dropLast] at h₁
  simp only [parent]
  omega

end Path

end StreamControl
