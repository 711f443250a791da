/-
  LazyFields.Source.Docs
  ────────────────────────────────
  **DOC COMMENTS.**

  The comment lines right before a declaration document it: the first line
  is the title, the others, joined by single spaces, are the description.
-/
import LazyFields.Text.Blank
import LazyFields.Text.Cut

namespace LazyFields.Source

open LazyFields.Text

/-- What the comments before a declaration say. -/
structure Docs where
  title : String
  desc : String
  deriving DecidableEq, Repr, Inhabited

/-- The text of a comment line: without its slashes and the blanks at its
ends. -/
def commentText (line : String) : String :=
  let cs := line.toList
  String.ofList (trim isDocBlank ((stripStart? ['/', '/'] cs).getD cs))

/-- The documentation in some comment lines. -/
def Docs.ofComments : List String → Docs
  | [] => ⟨"", ""⟩
  | line :: lines => ⟨commentText line, " ".intercalate (lines.map commentText)⟩

end LazyFields.Source
