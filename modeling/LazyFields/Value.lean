/-
  LazyFields.Value
  ────────────────────────────────
  **VALUES OF FIELDS.**

  A field holds a `Value`, whose constructors are the kinds of data that
  types speak of.  `Value.matches` says which values a field of a type may
  hold: null everywhere, anything where the type is `any`, and elements and
  entries by the type of the elements.  A reader asks for a `NativeType`,
  which does not look into lists and maps; `Value.cast` gives it the value or
  says what it found.
-/
import LazyFields.Error
import LazyFields.FieldType
import LazyFields.Json.Basic
import LazyFields.Moment

namespace LazyFields

/-- The value of a field or of a constructor argument. -/
inductive Value where
  | null
  | bool (b : Bool)
  | int (n : Int64)
  | float (x : Binary64)
  | string (s : String)
  | time (t : Moment)
  /-- Structured data. -/
  | dict (data : Json)
  /-- An instance: its kind and its id, which no other instance shares. -/
  | resource (kind id : String)
  | array (items : List Value)
  /-- Entries by increasing key. -/
  | map (entries : List (String × Value))
  deriving Repr, Inhabited

/-- Constructor arguments by name. -/
abbrev Args := Table Value

namespace Value

/-! ## §1. Names and text. -/

/-- The kind of value, as error messages name it. -/
def typeName : Value → String
  | null => "null"
  | bool _ => "bool"
  | int _ => "int"
  | float _ => "float"
  | string _ => "string"
  | time _ => "time"
  | dict _ => "dict"
  | resource kind _ => kind
  | array _ => "array"
  | map _ => "map"

/-- Whether the value is null. -/
def isNull : Value → Bool
  | null => true
  | _ => false

/-- Numbers are written without an exponent, and whole numbers without a
point; of two equally near digit strings the larger is taken. -/
def numberStyle : Decimal.Style := ⟨.up, none, ""⟩

mutual

/-- The text of a value. -/
def text : Value → String
  | null => "null"
  | bool b => if b then "true" else "false"
  | int n => toString n.toInt
  | float x => Decimal.ofNumber numberStyle x
  | string s => s
  | time t => t.text
  | dict data => data.compact
  | resource kind id => kind ++ " id = " ++ id
  | array items => "[" ++ itemsText items ++ "]"
  | map entries => "\x7b" ++ entriesText entries ++ "\x7d"

/-- Elements with commas between them. -/
def itemsText : List Value → String
  | [] => ""
  | [v] => v.text
  | v :: w :: vs => v.text ++ ", " ++ itemsText (w :: vs)

/-- Entries with commas between them. -/
def entriesText : List (String × Value) → String
  | [] => ""
  | [(k, v)] => k ++ ": " ++ v.text
  | (k, v) :: e :: es => k ++ ": " ++ v.text ++ ", " ++ entriesText (e :: es)

end

/-! ## §2. Equality. -/

mutual

/-- Equality of values.  A NaN equals nothing, and an instance is known by its
kind and id. -/
def same : Value → Value → Bool
  | null, null => true
  | bool a, bool b => a == b
  | int a, int b => a == b
  | float a, float b => a.sameNumber b
  | string a, string b => a == b
  | time a, time b => a == b
  | dict a, dict b => a.same b
  | resource k i, resource l j => k == l && i == j
  | array a, array b => sameItems a b
  | map a, map b => sameEntries a b
  | _, _ => false

/-- Equality element by element. -/
def sameItems : List Value → List Value → Bool
  | [], [] => true
  | v :: vs, w :: ws => v.same w && sameItems vs ws
  | _, _ => false

/-- Equality entry by entry. -/
def sameEntries : List (String × Value) → List (String × Value) → Bool
  | [], [] => true
  | (k, v) :: es, (l, w) :: fs => k == l && v.same w && sameEntries es fs
  | _, _ => false

end

/-! ## §3. Types. -/

mutual

/-- Whether a field of the given type may hold the value. -/
def matchesType : Value → FieldType → Bool
  | _, .any => true
  | null, _ => true
  | bool _, .bool => true
  | int _, .int => true
  | float _, .float => true
  | string _, .string => true
  | string _, .regex => true
  | time _, .time => true
  | dict _, .dict => true
  | resource kind _, .resource name => kind == name
  | array items, .array element => itemsMatch items element
  | map entries, .map _ value => entriesMatch entries value
  | _, _ => false

/-- Whether all elements are of the type. -/
def itemsMatch : List Value → FieldType → Bool
  | [], _ => true
  | v :: vs, t => v.matchesType t && itemsMatch vs t

/-- Whether the values of all entries are of the type. -/
def entriesMatch : List (String × Value) → FieldType → Bool
  | [], _ => true
  | (_, v) :: es, t => v.matchesType t && entriesMatch es t

end

/-- What a reader of a value can ask for. -/
inductive NativeType where
  | bool
  | int
  | float
  | string
  | time
  | resource
  | array
  | map
  | any
  /-- Null, or the given type. -/
  | optional (inner : NativeType)
  deriving DecidableEq, Repr

/-- The name of what a reader asks for. -/
def NativeType.name : NativeType → String
  | bool => "bool"
  | int => "int"
  | float => "float"
  | string => "string"
  | time => "time"
  | resource => "resource"
  | array => "array"
  | map => "map"
  | any => "any"
  | optional inner => inner.name

/-- Whether the value is what a reader asks for. -/
def isNative : Value → NativeType → Bool
  | _, .any => true
  | bool _, .bool => true
  | int _, .int => true
  | float _, .float => true
  | string _, .string => true
  | time _, .time => true
  | resource _ _, .resource => true
  | array _, .array => true
  | map _, .map => true
  | null, .optional _ => true
  | v, .optional inner => v.isNative inner
  | _, _ => false

/-- The value as a reader asks for it. -/
def native? (v : Value) (t : NativeType) : Option Value :=
  if v.isNative t then some v else none

/-- Give the value of a field to a reader that asks for a type. -/
def cast (v : Value) (kind field : String) (t : NativeType) : Except Error Value :=
  match v.native? t with
  | some v => .ok v
  | none => .error (.cast kind field t.name v.typeName)

end Value

end LazyFields
