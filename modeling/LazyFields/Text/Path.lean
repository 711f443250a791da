/-
  LazyFields.Text.Path
  ────────────────────────────────
  **FILE PATHS.**

  A path is text with slashes.  Empty pieces mean nothing, nor does a piece
  `.` unless it stands first; what is left are the components.  The operations
  keep the text of what they keep: joining does not tidy up, and the parent
  of a path is a beginning of it.
-/
import LazyFields.Text.Cut

namespace LazyFields.Text.Path

/-- Whether a path starts at the root. -/
def isAbsolute (path : String) : Bool := path.toList.head? = some '/'

/-- The pieces of a path, last first, without those at the end that are no
component. -/
def dropIdle : List (List Char) → List (List Char)
  | [] => []
  | [s] => if s = [] then [] else [s]
  | s :: t :: ss => if s = [] || s = ['.'] then dropIdle (t :: ss) else s :: t :: ss

/-- The pieces up to the last component, that first. -/
def components (path : String) : List (List Char) :=
  dropIdle (segments '/' path.toList).reverse

/-- The name of the file or directory that a path ends in; a path that ends in
the root, in `.` or in `..` has none. -/
def fileName? (path : String) : Option String :=
  match components path with
  | [] => none
  | c :: rest =>
      if c = ['.', '.'] || (c = ['.'] && rest.isEmpty) then none else some (String.ofList c)

/-- The directory that a path lies in: its text up to the component before the
last, the root if there is none and the path starts there, else empty. -/
def parent (path : String) : String :=
  match components path with
  | [] => ""
  | _ :: rest =>
      match dropIdle rest with
      | [] => if isAbsolute path then "/" else ""
      | kept => String.ofList (joinWith '/' kept.reverse)

/-- The path of something below a directory; an absolute path stays what it
is. -/
def join (base path : String) : String :=
  if isAbsolute path then path
  else if base = "" || base.toList.getLast? = some '/' then base ++ path
  else base ++ "/" ++ path

end LazyFields.Text.Path
