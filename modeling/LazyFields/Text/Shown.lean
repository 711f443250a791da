/-
  LazyFields.Text.Shown
  ────────────────────────────────
  **CHARACTERS THAT SHOW THEMSELVES.**

  A text that is quoted for a reader keeps the characters that can be seen,
  and names the others by number: controls and formats, blanks other than the
  space, fillers that leave nothing on the page, code points that are private
  or not assigned, and marks that only change the character before them.  The
  two halfwidth voicing marks are letters with a width of their own and can be
  seen.
-/
import LazyFields.Text.Category

namespace LazyFields.Text

/-- The marks with a width that belong to the character before them. -/
def extendingMarks : List (Nat × Nat) :=
  [(0x9be, 0x9be), (0x9d7, 0x9d7), (0xb3e, 0xb3e), (0xb57, 0xb57), (0xbbe, 0xbbe),
   (0xbd7, 0xbd7), (0xcc0, 0xcc0), (0xcc2, 0xcc2), (0xcc7, 0xcc8), (0xcca, 0xccb),
   (0xcd5, 0xcd6), (0xd3e, 0xd3e), (0xd57, 0xd57), (0xdcf, 0xdcf), (0xddf, 0xddf),
   (0x1715, 0x1715), (0x1734, 0x1734), (0x1b35, 0x1b35), (0x1b3b, 0x1b3b), (0x1b3d, 0x1b3d),
   (0x1b43, 0x1b44), (0x1baa, 0x1baa), (0x1bf2, 0x1bf3), (0x302e, 0x302f), (0xa953, 0xa953),
   (0xa9c0, 0xa9c0), (0x111c0, 0x111c0), (0x11235, 0x11235), (0x1133e, 0x1133e),
   (0x1134d, 0x1134d), (0x11357, 0x11357), (0x113b8, 0x113b8), (0x113c2, 0x113c2),
   (0x113c5, 0x113c5), (0x113c7, 0x113c9), (0x113cf, 0x113cf), (0x114b0, 0x114b0),
   (0x114bd, 0x114bd), (0x115af, 0x115af), (0x116b6, 0x116b6), (0x11930, 0x11930),
   (0x1193d, 0x1193d), (0x11f41, 0x11f41), (0x16ff0, 0x16ff1), (0x1d165, 0x1d166),
   (0x1d16d, 0x1d172)]

/-- Whether a code point lies in one of the ranges. -/
def isWithin (ranges : List (Nat × Nat)) (n : Nat) : Bool :=
  ranges.any fun r => r.1 ≤ n && n ≤ r.2

/-- The letters that fill the place of a letter and show nothing. -/
def fillers : List Nat := [0x115f, 0x1160, 0x3164, 0xffa0]

/-- Whether the characters of a category can be seen, most of them. -/
def Category.isShown : Category → Bool
  | mn | me | zs | zl | zp => false
  | k => !k.isOther

/-- Whether a character can be seen where it stands. -/
def isShown (c : Char) : Bool :=
  c = ' ' || ((category c).isShown && !fillers.contains c.toNat
    && !isWithin extendingMarks c.toNat)

end LazyFields.Text
