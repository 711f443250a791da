/-
  LazyFields.FieldType
  ────────────────────────────────
  **TYPES OF FIELDS AND THEIR TEXT.**

  A declared type, once its names are resolved, is a `FieldType`: one of
  eight primitives, a resource by name, a list or a map.  Its text is the
  notation of the declarations (`[]string`, `map[string]int`, `os.base`), in
  which a schema also stores it.

  Reading a type takes the text apart at its front: `[]` and an element type,
  or `map[`, a key up to the first bracket, and a value type.  A key is a
  primitive or a resource.  Any other text is a primitive's name or else a
  resource's, and a refusal names the part of the text it could not read.
-/
import LazyFields.Text.Cut

namespace LazyFields

open LazyFields.Text

/-- The type of a field. -/
inductive FieldType where
  | bool
  /-- 64-bit signed integers. -/
  | int
  /-- Binary64 numbers. -/
  | float
  | string
  /-- A regular expression, held as its text. -/
  | regex
  /-- A moment. -/
  | time
  /-- Arbitrary structured data. -/
  | dict
  /-- No constraint. -/
  | any
  /-- An instance of the named resource. -/
  | resource (name : String)
  | array (element : FieldType)
  | map (key value : FieldType)
  deriving DecidableEq, Repr, Inhabited

namespace FieldType

/-! ## §1. Kinds of types. -/

/-- The primitive of the given name. -/
def primitive? (name : String) : Option FieldType :=
  if name = "bool" then some bool
  else if name = "int" then some int
  else if name = "float" then some float
  else if name = "string" then some string
  else if name = "regex" then some regex
  else if name = "time" then some time
  else if name = "dict" then some dict
  else if name = "any" then some any
  else none

/-- Whether the type is a resource. -/
def isResource : FieldType → Bool
  | resource _ => true
  | _ => false

/-- Whether the type is a primitive. -/
def isPrimitive : FieldType → Bool
  | resource _ | array _ | map _ _ => false
  | _ => true

/-- The resources that occur in the type, from left to right. -/
def resources : FieldType → List String
  | resource name => [name]
  | array element => element.resources
  | map key value => key.resources ++ value.resources
  | _ => []

/-! ## §2. The text of a type. -/

/-- The text of a type. -/
def text : FieldType → String
  | bool => "bool"
  | int => "int"
  | float => "float"
  | string => "string"
  | regex => "regex"
  | time => "time"
  | dict => "dict"
  | any => "any"
  | resource name => name
  | array element => "[]" ++ element.text
  | map key value => "map[" ++ key.text ++ "]" ++ value.text

/-- A character that starts a segment of a resource name. -/
def isSegmentStart (c : Char) : Bool := c.isAlpha || c = '_' || c = '$'

/-- A character of a segment of a resource name. -/
def isSegmentChar (c : Char) : Bool := c.isAlphanum || c = '_' || c = '$'

/-- Whether a text is a segment of a resource name. -/
def isSegment (cs : List Char) : Bool :=
  cs.head?.any isSegmentStart && cs.all isSegmentChar

/-- Whether a text is the name of a resource: segments with dots between
them. -/
def isResourceName (cs : List Char) : Bool := (segments '.' cs).all isSegment

/-- Read a text without brackets at its front: a primitive or a resource
name. -/
def ofName (cs : List Char) : Except String FieldType :=
  let name := String.ofList cs
  match primitive? name with
  | some t => .ok t
  | none => if isResourceName cs then .ok (resource name) else .error name

theorem cutFirst_lt {c : Char} {s a b : List Char} (h : cutFirst c s = some (a, b)) :
    a.length < s.length ∧ b.length < s.length := by
  rw [(eq_append_of_cutFirst h).1]
  simp
  omega

/-- Read the text of a type; the answer to any other text is its part that
cannot be read. -/
def ofChars : List Char → Except String FieldType
  | '[' :: ']' :: cs =>
      match ofChars cs with
      | .error e => .error e
      | .ok element => .ok (array element)
  | 'm' :: 'a' :: 'p' :: '[' :: cs =>
      let whole := 'm' :: 'a' :: 'p' :: '[' :: cs
      match _h : cutFirst ']' cs with
      | none => .error (String.ofList whole)
      | some (k, v) =>
        match ofChars k with
        | .error e => .error e
        | .ok key =>
          if key.isResource || key.isPrimitive then
            match ofChars v with
            | .error e => .error e
            | .ok value => .ok (map key value)
          else .error (String.ofList whole)
  | cs => ofName cs
termination_by cs => cs.length
decreasing_by
  · simp only [List.length_cons]
    omega
  · have := (cutFirst_lt _h).1
    simp only [List.length_cons]
    omega
  · have := (cutFirst_lt _h).2
    simp only [List.length_cons]
    omega

/-- Read the text of a type. -/
def ofText (s : String) : Except String FieldType := ofChars s.toList

/-- How a refusal is said. -/
def invalidText (part : String) : String := "invalid type '" ++ part ++ "'"

end FieldType

end LazyFields
