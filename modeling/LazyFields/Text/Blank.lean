/-
  LazyFields.Text.Blank
  ────────────────────────────────
  **WHITE SPACE.**

  Three classes of blanks occur.  The scanner skips four characters between
  tokens.  The end of a comment loses everything with the Unicode property
  `White_Space`, of which the four are members (`isSpace_of_isGap`).  A doc
  line loses only spaces, tabs and line feeds at both its ends.
-/

namespace LazyFields.Text

/-- Between tokens: space, tab, carriage return and line feed. -/
def isGap (c : Char) : Bool :=
  c = ' ' || c = '\t' || c = '\r' || c = '\n'

/-- The Unicode property `White_Space`. -/
def isSpace (c : Char) : Bool :=
  let n := c.toNat
  (9 ≤ n && n ≤ 13) || n = 0x20 || n = 0x85 || n = 0xA0 || n = 0x1680
    || (0x2000 ≤ n && n ≤ 0x200A) || n = 0x2028 || n = 0x2029 || n = 0x202F
    || n = 0x205F || n = 0x3000

/-- At the ends of a doc line: space, tab and line feed. -/
def isDocBlank (c : Char) : Bool :=
  c = ' ' || c = '\t' || c = '\n'

theorem isSpace_of_isGap {c : Char} (h : isGap c = true) : isSpace c = true := by
  simp only [isGap, Bool.or_eq_true, decide_eq_true_eq] at h
  rcases h with ((rfl | rfl) | rfl) | rfl <;> rfl

end LazyFields.Text
