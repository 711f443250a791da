/-
  LazyFields.Json.Basic
  ────────────────────────────────
  **JSON VALUES AND THEIR TEXT.**

  A value keeps whole numbers apart from floating-point numbers.  Two
  printers write it: `compact` without any blanks, `pretty` with one member
  or element to a line and two spaces for each level.  An object is written
  in the order of its members; one that was read from a text has each key
  once, in increasing order.
-/
import LazyFields.Number.Decimal
import LazyFields.Table

namespace LazyFields

/-- A JSON value. -/
inductive Json where
  | null
  | bool (b : Bool)
  /-- A whole number. -/
  | int (n : Int)
  /-- A number with a point or an exponent, or too large for a word. -/
  | float (x : Binary64)
  | string (s : String)
  | array (items : List Json)
  /-- The members, in the order they are written. -/
  | object (members : List (String × Json))
  deriving Repr, Inhabited

namespace Json

/-! ## §1. Strings and numbers. -/

/-- Numbers are written without an exponent from `0.00001` up to sixteen
digits before the point; a whole number ends in `.0`; of two equally near
digit strings the even one is taken. -/
def numberStyle : Decimal.Style := ⟨.even, some (-4, 16), ".0"⟩

/-- A hexadecimal digit. -/
def hexDigit (n : Nat) : Char :=
  if n < 10 then Char.ofNat ('0'.toNat + n) else Char.ofNat ('a'.toNat + (n - 10))

/-- A character inside a string literal: quotes, backslashes and control
characters are escaped, everything else stands for itself. -/
def escapeChar (c : Char) : List Char :=
  if c = '"' then ['\\', '"']
  else if c = '\\' then ['\\', '\\']
  else if c = '\n' then ['\\', 'n']
  else if c = '\r' then ['\\', 'r']
  else if c = '\t' then ['\\', 't']
  else if c = '\x08' then ['\\', 'b']
  else if c = '\x0c' then ['\\', 'f']
  else if c.toNat < 0x20 then
    ['\\', 'u', '0', '0', hexDigit (c.toNat / 16), hexDigit (c.toNat % 16)]
  else [c]

/-- A string literal. -/
def quote (s : String) : List Char :=
  '"' :: s.toList.flatMap escapeChar ++ ['"']

/-- The literal of a value that has no parts. -/
def numberText (x : Binary64) : List Char := (Decimal.ofNumber numberStyle x).toList

/-! ## §2. Compact text. -/

mutual

/-- The text without blanks. -/
def compactChars : Json → List Char
  | null => "null".toList
  | bool true => "true".toList
  | bool false => "false".toList
  | int n => (toString n).toList
  | float x => numberText x
  | string s => quote s
  | array items => '[' :: compactItems items ++ [']']
  | object members => '\x7b' :: compactMembers members ++ ['\x7d']

/-- Elements with commas between them. -/
def compactItems : List Json → List Char
  | [] => []
  | [v] => v.compactChars
  | v :: w :: vs => v.compactChars ++ ',' :: compactItems (w :: vs)

/-- Members with commas between them. -/
def compactMembers : List (String × Json) → List Char
  | [] => []
  | [(k, v)] => quote k ++ ':' :: v.compactChars
  | (k, v) :: m :: ms => quote k ++ ':' :: v.compactChars ++ ',' :: compactMembers (m :: ms)

end

/-- The text without blanks. -/
def compact (j : Json) : String := String.ofList j.compactChars

/-! ## §3. Pretty text. -/

/-- A line break and the indentation of a level. -/
def newline (level : Nat) : List Char := '\n' :: List.replicate (2 * level) ' '

mutual

/-- The text of a value that stands at the given level. -/
def prettyChars (level : Nat) : Json → List Char
  | null => "null".toList
  | bool true => "true".toList
  | bool false => "false".toList
  | int n => (toString n).toList
  | float x => numberText x
  | string s => quote s
  | array [] => ['[', ']']
  | array (v :: vs) =>
      '[' :: prettyItems (level + 1) (v :: vs) ++ newline level ++ [']']
  | object [] => ['\x7b', '\x7d']
  | object (m :: ms) =>
      '\x7b' :: prettyMembers (level + 1) (m :: ms) ++ newline level ++ ['\x7d']

/-- Elements, each on a line of its own. -/
def prettyItems (level : Nat) : List Json → List Char
  | [] => []
  | [v] => newline level ++ v.prettyChars level
  | v :: w :: vs => newline level ++ v.prettyChars level ++ ',' :: prettyItems level (w :: vs)

/-- Members, each on a line of its own. -/
def prettyMembers (level : Nat) : List (String × Json) → List Char
  | [] => []
  | [(k, v)] => newline level ++ quote k ++ ':' :: ' ' :: v.prettyChars level
  | (k, v) :: m :: ms =>
      newline level ++ quote k ++ ':' :: ' ' :: v.prettyChars level
        ++ ',' :: prettyMembers level (m :: ms)

end

/-- The text with one member or element to a line. -/
def pretty (j : Json) : String := String.ofList (j.prettyChars 0)

/-! ## §4. Equality and access. -/

mutual

/-- Equality of values: whole numbers and floating-point numbers differ, the
two zeros are equal. -/
def same : Json → Json → Bool
  | null, null => true
  | bool a, bool b => a == b
  | int a, int b => a == b
  | float a, float b => a.sameNumber b
  | string a, string b => a == b
  | array a, array b => sameItems a b
  | object a, object b => sameMembers a b
  | _, _ => false

/-- Equality element by element. -/
def sameItems : List Json → List Json → Bool
  | [], [] => true
  | v :: vs, w :: ws => v.same w && sameItems vs ws
  | _, _ => false

/-- Equality member by member. -/
def sameMembers : List (String × Json) → List (String × Json) → Bool
  | [], [] => true
  | (k, v) :: ms, (l, w) :: ns => k == l && v.same w && sameMembers ms ns
  | _, _ => false

end

/-- The value of a member. -/
def member? (key : String) : Json → Option Json
  | object members => Entries.find key members
  | _ => none

end Json

end LazyFields
