/-
  LazyFields.Number.Binary64
  ────────────────────────────────
  **BINARY64 NUMBERS, BY EXACT ARITHMETIC.**

  A floating-point number is its 64 bits.  Everything about it is decided in
  natural numbers: a finite number is `m · 2^q` with a sign, and a quotient
  of naturals becomes the nearest such number, a half going to the even
  neighbour (`ofRatio`).  Products and quotients of numbers are then one
  exact quotient and one rounding.
-/

namespace LazyFields

/-- A power of two. -/
def pow2 (n : Nat) : Nat := Nat.pow 2 n

/-- A power of ten. -/
def pow10 (n : Nat) : Nat := Nat.pow 10 n

/-- A binary64 number, by its bits. -/
structure Binary64 where
  bits : UInt64
  deriving DecidableEq, Repr, Inhabited

/-- A finite number without its sign: `mantissa · 2^exponent`. -/
structure Binary64.Magnitude where
  mantissa : Nat
  exponent : Int
  deriving DecidableEq, Repr

namespace Binary64

/-! ## §1. Reading the bits. -/

/-- The sign bit. -/
def negative (x : Binary64) : Bool := x.bits.toNat ≥ pow2 63

/-- The eleven bits after the sign. -/
def biasedExponent (x : Binary64) : Nat := x.bits.toNat / pow2 52 % pow2 11

/-- The lowest 52 bits. -/
def fraction (x : Binary64) : Nat := x.bits.toNat % pow2 52

/-- Not a number. -/
def isNaN (x : Binary64) : Bool := x.biasedExponent = 2047 && x.fraction ≠ 0

/-- One of the two infinities. -/
def isInfinite (x : Binary64) : Bool := x.biasedExponent = 2047 && x.fraction = 0

/-- The magnitude of a finite number. -/
def magnitude? (x : Binary64) : Option Magnitude :=
  if x.biasedExponent = 2047 then none
  else if x.biasedExponent = 0 then some ⟨x.fraction, -1074⟩
  else some ⟨pow2 52 + x.fraction, (x.biasedExponent : Int) - 1075⟩

/-- One of the two zeros. -/
def isZero (x : Binary64) : Bool := x.bits.toNat % pow2 63 = 0

/-- Equality of numbers: the zeros are equal, a NaN equals nothing. -/
def sameNumber (x y : Binary64) : Bool :=
  !x.isNaN && !y.isNaN && (x = y || (x.isZero && y.isZero))

/-! ## §2. Rounding. -/

/-- The bits of a sign in front of the lower 63 bits. -/
def ofSignAnd (negative : Bool) (low : Nat) : Binary64 :=
  ⟨UInt64.ofNat ((if negative then pow2 63 else 0) + low)⟩

/-- Infinity with a sign. -/
def infinity (negative : Bool) : Binary64 := ofSignAnd negative (2047 * pow2 52)

/-- Zero with a sign. -/
def zero (negative : Bool) : Binary64 := ofSignAnd negative 0

/-- A number that is none. -/
def nan : Binary64 := ofSignAnd false (2047 * pow2 52 + pow2 51)

/-- The quotient rounded to the nearest natural, a half to the even one. -/
def roundHalfEven (num den : Nat) : Nat :=
  let q := num / den
  let r := num % den
  if 2 * r > den || (2 * r = den && q % 2 = 1) then q + 1 else q

/-- The largest `e` with `2^e ≤ num / den`, for a quotient that is not
zero. -/
def floorLog2 (num den : Nat) : Int :=
  let e : Int := (num.log2 : Int) - (den.log2 : Int)
  if num * pow2 (-e).toNat < den * pow2 e.toNat then e - 1 else e

/-- The number nearest to `num / den`, a half going to the neighbour with the
even mantissa; what is too large is infinite. -/
def ofRatio (negative : Bool) (num den : Nat) : Binary64 :=
  if num = 0 then zero negative
  else
    let q : Int := max (floorLog2 num den - 52) (-1074)
    let m := roundHalfEven (num * pow2 (-q).toNat) (den * pow2 q.toNat)
    let low := if m < pow2 52 then m else (q + 1075).toNat * pow2 52 + (m - pow2 52)
    if low ≥ 2047 * pow2 52 then infinity negative else ofSignAnd negative low

/-- The number nearest to a natural. -/
def ofNat (n : Nat) : Binary64 := ofRatio false n 1

/-- The number with the other sign. -/
def neg (x : Binary64) : Binary64 := ofSignAnd (!x.negative) (x.bits.toNat % pow2 63)

/-- The product of two finite numbers, rounded; no number otherwise. -/
def mul (x y : Binary64) : Binary64 :=
  match x.magnitude?, y.magnitude? with
  | some a, some b =>
      let e := a.exponent + b.exponent
      ofRatio (x.negative != y.negative)
        (a.mantissa * b.mantissa * pow2 e.toNat) (pow2 (-e).toNat)
  | _, _ => nan

/-- The quotient of two finite numbers, the second not zero, rounded; no
number otherwise. -/
def div (x y : Binary64) : Binary64 :=
  match x.magnitude?, y.magnitude? with
  | some a, some b =>
      if b.mantissa = 0 then nan
      else
        let e := a.exponent - b.exponent
        ofRatio (x.negative != y.negative)
          (a.mantissa * pow2 e.toNat) (b.mantissa * pow2 (-e).toNat)
  | _, _ => nan

/-- The number nearest to `m · 10^e`.  A value above every finite number or
below half the least one is known from its number of digits. -/
def ofDecimal (negative : Bool) (m : Nat) (e : Int) : Binary64 :=
  let size : Int := (Nat.toDigits 10 m).length + e
  if m = 0 || size < -400 then zero negative
  else if size > 400 then infinity negative
  else ofRatio negative (m * pow10 e.toNat) (pow10 (-e).toNat)

end Binary64

end LazyFields
