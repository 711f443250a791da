/-
  LazyFields.Moment
  ────────────────────────────────
  **MOMENTS IN TIME.**

  A moment is a number of seconds since the start of 1970 and a fraction in
  nanoseconds; fractions beyond one second belong to a leap second.  It is
  written in the calendar of RFC 3339, in UTC.
-/

namespace LazyFields

/-- A moment in UTC. -/
structure Moment where
  /-- Seconds since the start of 1970, leap seconds not counted. -/
  seconds : Int
  /-- The fraction of the second; a second and more within a leap second. -/
  nanos : Nat
  deriving DecidableEq, Repr, Inhabited

namespace Moment

/-- A day of the calendar. -/
structure Date where
  year : Int
  month : Nat
  day : Nat
  deriving DecidableEq, Repr

/-- The day that lies `n` days after the first of 1970.  Years are counted
from March, so that a leap day ends its year, in cycles of 400 years. -/
def Date.ofDays (n : Int) : Date :=
  let z := n + 719468
  let cycle := z.fdiv 146097
  let dayOfCycle := (z.fmod 146097).toNat
  let yearOfCycle :=
    (dayOfCycle - dayOfCycle / 1460 + dayOfCycle / 36524 - dayOfCycle / 146096) / 365
  let dayOfYear := dayOfCycle - (365 * yearOfCycle + yearOfCycle / 4 - yearOfCycle / 100)
  let month := (5 * dayOfYear + 2) / 153
  let year : Int := yearOfCycle + cycle * 400
  { year := if month < 10 then year else year + 1
    month := if month < 10 then month + 3 else month - 9
    day := dayOfYear - (153 * month + 2) / 5 + 1 }

/-- A number with at least `width` digits. -/
def padded (width n : Nat) : String :=
  let ds := Nat.toDigits 10 n
  String.ofList (List.replicate (width - ds.length) '0' ++ ds)

/-- A year: four digits, and a sign where four digits do not suffice. -/
def yearText (y : Int) : String :=
  if 0 ≤ y && y ≤ 9999 then padded 4 y.toNat
  else (if y < 0 then "-" else "+") ++ padded 4 y.natAbs

/-- A fraction: nothing, or as many of three, six and nine digits as it
needs. -/
def fractionText (nanos : Nat) : String :=
  if nanos = 0 then ""
  else if nanos % 1000000 = 0 then "." ++ padded 3 (nanos / 1000000)
  else if nanos % 1000 = 0 then "." ++ padded 6 (nanos / 1000)
  else "." ++ padded 9 nanos

/-- The text of a moment. -/
def text (t : Moment) : String :=
  let date := Date.ofDays (t.seconds.fdiv 86400)
  let second := (t.seconds.fmod 86400).toNat
  let leap := t.nanos / 1000000000
  yearText date.year ++ "-" ++ padded 2 date.month ++ "-" ++ padded 2 date.day
    ++ "T" ++ padded 2 (second / 3600) ++ ":" ++ padded 2 (second / 60 % 60)
    ++ ":" ++ padded 2 (second % 60 + leap) ++ fractionText (t.nanos % 1000000000) ++ "+00:00"

/-- The moment of the given seconds and nanoseconds.  Only the last second of
a minute can be a leap second. -/
def ofUnix? (seconds : Int) (nanos : Nat) : Option Moment :=
  if nanos ≥ 2000000000 || (nanos ≥ 1000000000 && seconds.fmod 60 ≠ 59) then none
  else some ⟨seconds, nanos⟩

end Moment

end LazyFields
