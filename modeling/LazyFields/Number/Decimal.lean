/-
  LazyFields.Number.Decimal
  ────────────────────────────────
  **THE DECIMAL TEXT OF A NUMBER.**

  A finite number is written with the fewest digits that read back as the
  same number.  The numbers that read back as `m · 2^q` form an interval
  around it, whose ends belong to it when `m` is even.  For one digit, two
  digits and so on the two neighbours of the number on that decimal grid are
  tested; the first grid with a hit wins, and of two hits the nearer.

  How the digits are laid out is a `Style`, one value per format.
-/
import LazyFields.Number.Binary64

namespace LazyFields

/-- `0.d₁d₂…dₙ · 10^point`, the digits being those of `digits`. -/
structure Decimal where
  digits : List Char
  point : Int
  deriving DecidableEq, Repr

namespace Decimal

/-! ## §1. The fewest digits. -/

/-- Two grid points are equally near: which one is taken. -/
inductive Tie where
  /-- The larger. -/
  | up
  /-- The one with an even last digit. -/
  | even
  deriving DecidableEq, Repr

/-- A positive number as the naturals `lo ≤ mid ≤ hi` over one denominator:
the number and the ends of its rounding interval. -/
structure Interval where
  lo : Nat
  mid : Nat
  hi : Nat
  den : Nat
  /-- Whether the ends belong to the interval. -/
  closed : Bool
  deriving Repr

/-- The rounding interval of a magnitude.  Below a power of two the next
number is only half as far away. -/
def Interval.ofMagnitude (x : Binary64.Magnitude) : Interval :=
  let below := if x.mantissa = pow2 52 && x.exponent > -1074 then 1 else 2
  let scale := pow2 (x.exponent - 2).toNat
  { lo := (4 * x.mantissa - below) * scale
    mid := 4 * x.mantissa * scale
    hi := (4 * x.mantissa + 2) * scale
    den := pow2 (2 - x.exponent).toNat
    closed := x.mantissa % 2 = 0 }

/-- The smallest `k` with `num / den < 10^k`; starting from an estimate that is
at most a few too small. -/
def digitsBefore (num den : Nat) : Int :=
  let rec climb : Nat → Int → Int
    | 0, k => k
    | fuel + 1, k =>
        if num * pow10 (-k).toNat < den * pow10 k.toNat then k else climb fuel (k + 1)
  let bits : Int := (num.log2 : Int) - (den.log2 : Int)
  climb 5 ((bits - 1) * 30103 / 100000 - 1)

/-- The grid of `n` digits below `10^k`: the point nearest to the number among
its two neighbours that lie in the interval, if any does. -/
def Interval.gridPoint? (i : Interval) (tie : Tie) (k : Int) (n : Nat) : Option Nat :=
  let e : Int := k - n
  -- one step of the grid is `10^e`; all is compared over the denominator `den`
  let up := pow10 (-e).toNat
  let step := i.den * pow10 e.toNat
  let inside := fun (c : Nat) =>
    if i.closed then i.lo * up ≤ c * step && c * step ≤ i.hi * up
    else i.lo * up < c * step && c * step < i.hi * up
  let c := i.mid * up / step
  let r := i.mid * up % step
  match inside c, inside (c + 1) with
  | true, true =>
      if 2 * r < step then some c
      else if 2 * r > step then some (c + 1)
      else match tie with
        | .up => some (c + 1)
        | .even => some (if c % 2 = 0 then c else c + 1)
  | true, false => some c
  | false, true => some (c + 1)
  | false, false => none

/-- The first grid with a hit, with its number of digits. -/
def Interval.shortest (i : Interval) (tie : Tie) (k : Int) : Nat → Nat → Nat × Nat
  | 0, n => (i.mid * pow10 (n - k).toNat / (i.den * pow10 (k - n).toNat), n)
  | fuel + 1, n =>
      match i.gridPoint? tie k n with
      | some c => (c, n)
      | none => i.shortest tie k fuel (n + 1)

/-- The fewest digits that read back as the given positive number. -/
def ofMagnitude (tie : Tie) (x : Binary64.Magnitude) : Decimal :=
  let i := Interval.ofMagnitude x
  let k := digitsBefore i.mid i.den
  let (c, n) := i.shortest tie k 17 1
  let ds := Nat.toDigits 10 c
  ⟨((ds.reverse.dropWhile (· = '0')).reverse), k + ((ds.length : Int) - n)⟩

/-! ## §2. Layouts. -/

/-- How a format writes numbers. -/
structure Style where
  /-- Which of two equally near digit strings is taken. -/
  tie : Tie
  /-- The points between which a number is written without an exponent; no
  bounds mean always. -/
  plain : Option (Int × Int)
  /-- What follows a whole number. -/
  whole : String
  deriving Repr

/-- A run of zeros. -/
def zeros (n : Nat) : List Char := List.replicate n '0'

/-- The digits with a decimal point. -/
def plainText (d : Decimal) (whole : String) : String :=
  if d.point ≤ 0 then
    String.ofList ('0' :: '.' :: zeros (-d.point).toNat ++ d.digits)
  else
    let p := d.point.toNat
    if d.digits.length ≤ p then
      String.ofList (d.digits ++ zeros (p - d.digits.length)) ++ whole
    else String.ofList (d.digits.take p ++ '.' :: d.digits.drop p)

/-- The digits with an exponent: one digit before the point, and the sign of
the exponent always. -/
def exponentText (d : Decimal) : String :=
  let e := (if d.point < 1 then "e" else "e+") ++ toString (d.point - 1)
  match d.digits with
  | [] => "0"
  | [c] => String.ofList [c] ++ e
  | c :: cs => String.ofList (c :: '.' :: cs) ++ e

/-- The digits as the style writes them. -/
def text (s : Style) (d : Decimal) : String :=
  match s.plain with
  | some (least, most) =>
      if least ≤ d.point && d.point ≤ most then d.plainText s.whole else d.exponentText
  | none => d.plainText s.whole

/-- A number as the style writes it. -/
def ofNumber (s : Style) (x : Binary64) : String :=
  if x.isNaN then "NaN"
  else
    let sign := if x.negative then "-" else ""
    match x.magnitude? with
    | none => sign ++ "inf"
    | some m =>
        if m.mantissa = 0 then sign ++ "0" ++ s.whole
        else sign ++ (ofMagnitude s.tie m).text s

/-! ## §3. Reading. -/

/-- The digits at the head, and the rest. -/
def spanDigits (cs : List Char) : List Char × List Char :=
  (cs.takeWhile Char.isDigit, cs.dropWhile Char.isDigit)

/-- The number that decimal digits spell. -/
def natOfDigits (cs : List Char) : Nat :=
  cs.foldl (fun n c => 10 * n + (c.toNat - '0'.toNat)) 0

/-- Read an exponent: digits, perhaps with a sign, and nothing else. -/
def readExponent? (cs : List Char) : Option Int :=
  let digits? := fun (ds : List Char) =>
    if ds.isEmpty || !ds.all Char.isDigit then none else some (natOfDigits ds)
  match cs with
  | '-' :: ds => (digits? ds).map fun n => -(n : Int)
  | '+' :: ds => (digits? ds).map Int.ofNat
  | ds => (digits? ds).map Int.ofNat

/-- Read a number without a sign: digits with or without a point, at least one
digit in all, then perhaps an exponent; or a word for infinity or NaN in any
case of its letters. -/
def readUnsigned? (negative : Bool) (cs : List Char) : Option Binary64 :=
  let word := String.ofList (cs.map Char.toLower)
  if word = "inf" || word = "infinity" then some (.infinity negative)
  else if word = "nan" then some .nan
  else
    let (whole, rest) := spanDigits cs
    let (frac, rest) := match rest with
      | '.' :: ds => spanDigits ds
      | _ => ([], rest)
    if whole.isEmpty && frac.isEmpty then none
    else
      let value := fun (e : Int) =>
        Binary64.ofDecimal negative (natOfDigits (whole ++ frac)) (e - frac.length)
      match rest with
      | [] => some (value 0)
      | c :: ds => if c = 'e' || c = 'E' then (readExponent? ds).map value else none

/-- Read a number as text: the nearest binary64 number. -/
def read? (s : String) : Option Binary64 :=
  match s.toList with
  | '-' :: cs => readUnsigned? true cs
  | '+' :: cs => readUnsigned? false cs
  | cs => readUnsigned? false cs

end Decimal

end LazyFields
