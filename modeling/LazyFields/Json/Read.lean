/-
  LazyFields.Json.Read
  ────────────────────────────────
  **READING JSON.**

  Reading has two steps.  `Tree.read?` checks the grammar alone and keeps
  everything that was written: every member of an object, also one whose key
  comes twice, the digits of a number, the units of a string.  What a text
  MEANS is decided afterwards, and only for the parts that somebody asks for:
  `parse?` makes a value of all of it, and refuses unpaired
  surrogates, numbers beyond the finite ones, and nesting of 128 levels.

  A number that is not whole, or too large for a 64-bit word, is read in two
  roundings: the digits that fit a word become a number, which is then
  multiplied or divided by a power of ten.
-/
import LazyFields.Json.Basic

namespace LazyFields.Json

/-! ## §1. What is written. -/

/-- A character of a string literal, or a 16-bit unit given by number. -/
inductive StringUnit where
  | char (c : Char)
  | unit (n : Nat)
  deriving DecidableEq, Repr

/-- The digits of a number literal. -/
structure Numeral where
  negative : Bool
  /-- The digits before the point. -/
  whole : List Char
  /-- The digits after the point, if there is one. -/
  frac : Option (List Char)
  /-- The sign and the digits of the exponent, if there is one. -/
  exponent : Option (Bool × List Char)
  deriving DecidableEq, Repr

/-- A JSON text after the check of its grammar. -/
inductive Tree where
  | null
  | bool (b : Bool)
  | number (n : Numeral)
  | string (units : List StringUnit)
  | array (items : List Tree)
  | object (members : List (List StringUnit × Tree))
  deriving Repr, Inhabited

/-! ## §2. The grammar. -/

/-- The blanks between the parts of a text. -/
def isBlank (c : Char) : Bool := c = ' ' || c = '\n' || c = '\t' || c = '\r'

/-- The text without blanks at its head. -/
def skipBlanks (cs : List Char) : List Char := cs.dropWhile isBlank

/-- The value of a hexadecimal digit. -/
def hexValue? (c : Char) : Option Nat :=
  let n := c.toNat
  if '0'.toNat ≤ n && n ≤ '9'.toNat then some (n - '0'.toNat)
  else if 'a'.toNat ≤ n && n ≤ 'f'.toNat then some (n - 'a'.toNat + 10)
  else if 'A'.toNat ≤ n && n ≤ 'F'.toNat then some (n - 'A'.toNat + 10)
  else none

/-- The unit that four hexadecimal digits spell. -/
def hexUnit? (a b c d : Char) : Option Nat := do
  let a ← hexValue? a
  let b ← hexValue? b
  let c ← hexValue? c
  let d ← hexValue? d
  return ((a * 16 + b) * 16 + c) * 16 + d

/-- The character of a short escape. -/
def shortEscape? : Char → Option Char
  | '"' => some '"'
  | '\\' => some '\\'
  | '/' => some '/'
  | 'b' => some '\x08'
  | 'f' => some '\x0c'
  | 'n' => some '\n'
  | 'r' => some '\r'
  | 't' => some '\t'
  | _ => none

/-- The units of a string literal after its opening quote, and the rest after
the closing one. -/
def readUnits? : List Char → Option (List StringUnit × List Char)
  | [] => none
  | '"' :: cs => some ([], cs)
  | '\\' :: 'u' :: a :: b :: c :: d :: cs => do
      let n ← hexUnit? a b c d
      let (units, rest) ← readUnits? cs
      return (.unit n :: units, rest)
  | '\\' :: e :: cs => do
      let c ← shortEscape? e
      let (units, rest) ← readUnits? cs
      return (.char c :: units, rest)
  | c :: cs =>
      if c = '\\' || c.toNat < 0x20 then none
      else do
        let (units, rest) ← readUnits? cs
        return (.char c :: units, rest)

/-- The digits before the point: a zero alone, or digits that start with
another one. -/
def readWhole? (cs : List Char) : Option (List Char × List Char) :=
  let (ds, rest) := Decimal.spanDigits cs
  match ds with
  | [] => none
  | '0' :: _ :: _ => none
  | _ => some (ds, rest)

/-- The digits after a point, at least one, if there is a point. -/
def readFrac? : List Char → Option (Option (List Char) × List Char)
  | '.' :: cs =>
      let (ds, rest) := Decimal.spanDigits cs
      if ds.isEmpty then none else some (some ds, rest)
  | cs => some (none, cs)

/-- The sign and digits of an exponent, at least one digit, if there is an
exponent. -/
def readExponent? : List Char → Option (Option (Bool × List Char) × List Char)
  | [] => some (none, [])
  | c :: cs =>
      if c = 'e' || c = 'E' then
        let (negative, cs) := match cs with
          | '-' :: ds => (true, ds)
          | '+' :: ds => (false, ds)
          | ds => (false, ds)
        let (ds, rest) := Decimal.spanDigits cs
        if ds.isEmpty then none else some (some (negative, ds), rest)
      else some (none, c :: cs)

/-- A number literal. -/
def readNumeral? (cs : List Char) : Option (Numeral × List Char) := do
  let (negative, cs) := match cs with
    | '-' :: ds => (true, ds)
    | ds => (false, ds)
  let (whole, cs) ← readWhole? cs
  let (frac, cs) ← readFrac? cs
  let (exponent, cs) ← readExponent? cs
  return (⟨negative, whole, frac, exponent⟩, cs)

/-- A word of the language and the value it stands for. -/
def readWord? (cs : List Char) : Option (Tree × List Char) :=
  match cs with
  | 'n' :: 'u' :: 'l' :: 'l' :: rest => some (.null, rest)
  | 't' :: 'r' :: 'u' :: 'e' :: rest => some (.bool true, rest)
  | 'f' :: 'a' :: 'l' :: 's' :: 'e' :: rest => some (.bool false, rest)
  | _ => none

mutual

/-- A value with at most `fuel` parts, and the rest of the text. -/
def readTree? : Nat → List Char → Option (Tree × List Char)
  | 0, _ => none
  | fuel + 1, cs =>
      match skipBlanks cs with
      | '"' :: ds => do
          let (units, rest) ← readUnits? ds
          return (.string units, rest)
      | '[' :: ds =>
          match skipBlanks ds with
          | ']' :: rest => some (.array [], rest)
          | _ => do
              let (items, rest) ← readItems? fuel ds
              return (.array items, rest)
      | '\x7b' :: ds =>
          match skipBlanks ds with
          | '\x7d' :: rest => some (.object [], rest)
          | _ => do
              let (members, rest) ← readMembers? fuel ds
              return (.object members, rest)
      | c :: ds =>
          if c = '-' || c.isDigit then do
            let (n, rest) ← readNumeral? (c :: ds)
            return (.number n, rest)
          else readWord? (c :: ds)
      | [] => none

/-- The elements of an array up to its bracket; at least one. -/
def readItems? : Nat → List Char → Option (List Tree × List Char)
  | 0, _ => none
  | fuel + 1, cs => do
      let (item, rest) ← readTree? fuel cs
      match skipBlanks rest with
      | ',' :: ds => do
          let (items, rest) ← readItems? fuel ds
          return (item :: items, rest)
      | ']' :: rest => some ([item], rest)
      | _ => none

/-- The members of an object up to its brace; at least one. -/
def readMembers? : Nat → List Char →
    Option (List (List StringUnit × Tree) × List Char)
  | 0, _ => none
  | fuel + 1, cs =>
      match skipBlanks cs with
      | '"' :: ds => do
          let (key, rest) ← readUnits? ds
          match skipBlanks rest with
          | ':' :: es => do
              let (value, rest) ← readTree? fuel es
              match skipBlanks rest with
              | ',' :: fs => do
                  let (members, rest) ← readMembers? fuel fs
                  return ((key, value) :: members, rest)
              | '\x7d' :: rest => some ([(key, value)], rest)
              | _ => none
          | _ => none
      | _ => none

end

/-- The tree of a whole text.  An array or object takes two brackets and each
of its parts a character, so the length of the text is fuel enough. -/
def Tree.read? (text : String) : Option Tree := do
  let cs := text.toList
  let (tree, rest) ← readTree? (cs.length + 1) cs
  if (skipBlanks rest).isEmpty then some tree else none

/-! ## §3. What it means. -/

/-- The characters of a string literal, unless a surrogate has no partner. -/
def unitsToChars? : List StringUnit → Option (List Char)
  | [] => some []
  | .char c :: us => (unitsToChars? us).map (c :: ·)
  | .unit n :: .unit m :: us =>
      if 0xD800 ≤ n && n < 0xDC00 then
        if 0xDC00 ≤ m && m < 0xE000 then
          (unitsToChars? us).map
            (Char.ofNat (0x10000 + (n - 0xD800) * 0x400 + (m - 0xDC00)) :: ·)
        else none
      else if 0xDC00 ≤ n && n < 0xE000 then none
      else (unitsToChars? (.unit m :: us)).map (Char.ofNat n :: ·)
  | .unit n :: us =>
      if 0xD800 ≤ n && n < 0xE000 then none
      else (unitsToChars? us).map (Char.ofNat n :: ·)

/-- The text of a string literal. -/
def unitsText? (us : List StringUnit) : Option String :=
  (unitsToChars? us).map String.ofList

/-- The largest 64-bit word. -/
def maxWord : Nat := 18446744073709551615

/-- Append digits to a number as long as it fits a word: the number and how
many digits were left out. -/
def appendDigits (n : Nat) : List Char → Nat × Nat
  | [] => (n, 0)
  | d :: ds =>
      let n' := 10 * n + (d.toNat - '0'.toNat)
      if n' ≤ maxWord then appendDigits n' ds else (n, ds.length + 1)

/-- A power of ten. -/
def powerOfTen (k : Nat) : Binary64 := .ofRatio false (pow10 k) 1

/-- Multiply or divide by a power of ten, the number shrinking in steps of 308
places where the power is beyond the finite numbers; nothing if the result
is. -/
def scale? (x : Binary64) (e : Int) : Option Binary64 :=
  if 308 < e then if x.isZero then some x else none
  else if 0 ≤ e then
    let y := x.mul (powerOfTen e.toNat)
    if y.isInfinite then none else some y
  else if -308 ≤ e then some (x.div (powerOfTen (-e).toNat))
  else if x.isZero then some x
  else scale? (x.div (powerOfTen 308)) (e + 308)
termination_by (-e).toNat
decreasing_by omega

/-- The largest exponent. -/
def maxExponent : Int := 2147483647

/-- The exponent that is written, held to the 32-bit range when it is added to
`base`; nothing if it is itself out of that range. -/
def exponentSum? (base : Int) (negative : Bool) (ds : List Char) : Option Int :=
  let e := Decimal.natOfDigits ds
  if e > maxExponent then none
  else
    let sum := if negative then base - e else base + e
    some (max (-maxExponent - 1) (min maxExponent sum))

/-- The value of a number literal. -/
def Numeral.value? (n : Numeral) : Option Json :=
  let sign := fun (x : Binary64) => Json.float (if n.negative then x.neg else x)
  let (word, dropped) := appendDigits 0 n.whole
  match n.frac, n.exponent with
  | none, none =>
      if dropped = 0 then
        if !n.negative then some (.int word)
        else if 1 ≤ word && word ≤ pow2 63 then some (.int (-(word : Int)))
        else some (sign (.ofNat word))
      else (scale? (.ofNat word) dropped).map sign
  | frac, exponent =>
      let digits := frac.getD []
      let (word, unused) := appendDigits word digits
      let base : Int := (dropped : Int) - ((digits.length : Int) - unused)
      match exponent with
      | none => (scale? (.ofNat word) base).map sign
      | some (negative, ds) =>
          match exponentSum? base negative ds with
          | some e => (scale? (.ofNat word) e).map sign
          | none =>
              if word ≠ 0 && !negative then none else some (sign (.zero false))

/-- How deep arrays and objects may nest, the outermost counted. -/
def maxDepth : Nat := 127

mutual

/-- The value that a tree of a text means, if it nests at most `depth` deep. -/
def Tree.valueWithin? (depth : Nat) : Tree → Option Json
  | .null => some .null
  | .bool b => some (.bool b)
  | .number n => n.value?
  | .string us => (unitsText? us).map .string
  | .array items =>
      match depth with
      | 0 => none
      | depth + 1 => (valuesWithin? depth items).map .array
  | .object members =>
      match depth with
      | 0 => none
      | depth + 1 => (membersWithin? depth members).map fun ms => .object (Entries.sort ms)

/-- The values of elements. -/
def valuesWithin? (depth : Nat) : List Tree → Option (List Json)
  | [] => some []
  | s :: ss => do
      let v ← s.valueWithin? depth
      let vs ← valuesWithin? depth ss
      return v :: vs

/-- The members of an object. -/
def membersWithin? (depth : Nat) :
    List (List StringUnit × Tree) → Option (List (String × Json))
  | [] => some []
  | (k, s) :: ms => do
      let key ← unitsText? k
      let v ← s.valueWithin? depth
      let rest ← membersWithin? depth ms
      return (key, v) :: rest

end

/-- The value that a text means; of two members with one key the later
counts. -/
def parse? (text : String) : Option Json :=
  (Tree.read? text).bind (Tree.valueWithin? maxDepth)

end LazyFields.Json
