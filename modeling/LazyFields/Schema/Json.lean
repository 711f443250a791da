/-
  LazyFields.Schema.Json
  ────────────────────────────────
  **A SCHEMA AS JSON TEXT.**

  The text of a schema is its pretty JSON form; types appear in their own
  notation, and what is empty or absent is left out.  Reading goes the other
  way: what may be left out has a default, unknown members are ignored, a
  record may not name a member twice, and of two resources or fields with one
  key the later counts.  A record may also be given as the array of its
  members in order.

  The digest of a schema is that of its text.
-/
import LazyFields.Error
import LazyFields.Json.Read
import LazyFields.Schema.Basic
import LazyFields.Sha256

namespace LazyFields

/-! ## §1. Writing. -/

/-- A text member, left out when empty. -/
def textMember (key text : String) : List (String × Json) :=
  if text = "" then [] else [(key, .string text)]

namespace Parameter

/-- An argument as JSON. -/
def toJson (a : Parameter) : Json :=
  .object [("name", .string a.name), ("type", .string a.type.text), ("optional", .bool a.optional)]

end Parameter

namespace FieldSpec

/-- A field as JSON. -/
def toJson (f : FieldSpec) : Json :=
  .object
    ([("name", .string f.name), ("type", .string f.type.text), ("mandatory", .bool f.mandatory)]
      ++ (if f.refs = [] then [] else [("refs", .array (f.refs.map .string))])
      ++ textMember "title" f.title ++ textMember "desc" f.desc
      ++ [("isEmbedded", .bool f.isEmbedded)])

end FieldSpec

namespace ResourceSpec

/-- A resource as JSON. -/
def toJson (r : ResourceSpec) : Json :=
  .object
    ([("id", .string r.id), ("name", .string r.name)]
      ++ textMember "title" r.title ++ textMember "desc" r.desc
      ++ (match r.init with
        | none => []
        | some args => [("init", .object [("args", .array (args.map Parameter.toJson))])])
      ++ [("private", .bool r.isPrivate), ("isExtension", .bool r.isExtension)]
      ++ textMember "defaults" r.defaults
      ++ [("fields", .object (r.fields.map FieldSpec.toJson).entries)]
      ++ (match r.listType with
        | none => []
        | some t => [("listType", .string t.text)]))

end ResourceSpec

namespace Schema

/-- A schema as JSON. -/
def toJson (s : Schema) : Json :=
  .object [("resources", .object (s.resources.map ResourceSpec.toJson).entries)]

/-- The text of a schema. -/
def text (s : Schema) : String := s.toJson.pretty

/-- The digest of the text. -/
def digest (s : Schema) : String := Sha256.hexDigest s.text

end Schema

/-! ## §2. Reading records. -/

namespace Json.Tree

/-- Put each member into the slot of its key; a key that is none of them is
ignored, and a slot is filled at most once. -/
def fillSlots (keys : List String) :
    List (List StringUnit × Tree) → List (Option Tree) → Option (List (Option Tree))
  | [], slots => some slots
  | (k, v) :: ms, slots => do
      let key ← unitsText? k
      match keys.idxOf? key with
      | none => fillSlots keys ms slots
      | some i =>
        match slots[i]? with
        | some none => fillSlots keys ms (slots.set i (some v))
        | _ => none

/-- The parts of a record with the given keys, in their order.  An array gives
them by position, and may end early but not go on. -/
def record? (keys : List String) : Tree → Option (List (Option Tree))
  | .object ms => fillSlots keys ms (keys.map fun _ => none)
  | .array items =>
      if items.length ≤ keys.length then
        some (items.map some ++ List.replicate (keys.length - items.length) none)
      else none
  | _ => none

/-- A string. -/
def string? : Tree → Option String
  | .string us => unitsText? us
  | _ => none

/-- A truth value. -/
def bool? : Tree → Option Bool
  | .bool b => some b
  | _ => none

/-- A type, in its notation. -/
def type? (s : Tree) : Option FieldType := do
  match FieldType.ofText (← s.string?) with
  | .ok t => some t
  | .error _ => none

/-- The elements of an array, each read by `f`. -/
def list? {α : Type} (f : Tree → Option α) : Tree → Option (List α)
  | .array items => items.mapM f
  | _ => none

/-- The members of an object, each value read by `f`; of two members with one
key the later counts. -/
def table? {α : Type} (f : Tree → Option α) : Tree → Option (Table α)
  | .object ms =>
      (ms.mapM fun (m : List StringUnit × Tree) => do
        let key ← unitsText? m.1
        let value ← f m.2
        return (key, value)).map Table.ofList
  | _ => none

/-- An optional part: absent, `null`, or read by `f`. -/
def optional? {α : Type} (f : Tree → Option α) : Option Tree → Option (Option α)
  | none => some none
  | some .null => some none
  | some s => (f s).map some

/-- A part with a default. -/
def withDefault? {α : Type} (default : α) (f : Tree → Option α) : Option Tree → Option α
  | none => some default
  | some s => f s

end Json.Tree

/-! ## §3. Reading schemas. -/

open Json (Tree)

/-- Read an argument. -/
def Parameter.ofTree? (s : Tree) : Option Parameter := do
  match ← s.record? ["name", "type", "optional"] with
  | [name, type, optional] =>
      return {
        name := ← (← name).string?
        type := ← (← type).type?
        optional := ← Tree.withDefault? false Tree.bool? optional }
  | _ => none

/-- Read the arguments of a constructor. -/
def initOfTree? (s : Tree) : Option (List Parameter) := do
  match ← s.record? ["args"] with
  | [args] => (← args).list? Parameter.ofTree?
  | _ => none

/-- Read a field. -/
def FieldSpec.ofTree? (s : Tree) : Option FieldSpec := do
  match ← s.record? ["name", "type", "mandatory", "refs", "title", "desc", "isEmbedded"] with
  | [name, type, mandatory, refs, title, desc, isEmbedded] =>
      return {
        name := ← (← name).string?
        type := ← (← type).type?
        mandatory := ← Tree.withDefault? false Tree.bool? mandatory
        refs := ← Tree.withDefault? [] (Tree.list? Tree.string?) refs
        title := ← Tree.withDefault? "" Tree.string? title
        desc := ← Tree.withDefault? "" Tree.string? desc
        isEmbedded := ← Tree.withDefault? false Tree.bool? isEmbedded }
  | _ => none

/-- Read a resource. -/
def ResourceSpec.ofTree? (s : Tree) : Option ResourceSpec := do
  match ← s.record? ["id", "name", "title", "desc", "init", "private", "isExtension",
      "defaults", "fields", "listType"] with
  | [id, name, title, desc, init, isPrivate, isExtension, defaults, fields, listType] =>
      return {
        id := ← (← id).string?
        name := ← (← name).string?
        title := ← Tree.withDefault? "" Tree.string? title
        desc := ← Tree.withDefault? "" Tree.string? desc
        init := ← Tree.optional? initOfTree? init
        isPrivate := ← Tree.withDefault? false Tree.bool? isPrivate
        isExtension := ← Tree.withDefault? false Tree.bool? isExtension
        defaults := ← Tree.withDefault? "" Tree.string? defaults
        fields := ← (← fields).table? FieldSpec.ofTree?
        listType := ← Tree.optional? Tree.type? listType }
  | _ => none

namespace Schema

/-- Read a schema. -/
def ofTree? (s : Tree) : Option Schema := do
  match ← s.record? ["resources"] with
  | [resources] => return ⟨← (← resources).table? ResourceSpec.ofTree?⟩
  | _ => none

/-- The schema that a text means. -/
def ofText (text : String) : Except Error Schema :=
  match (Tree.read? text).bind ofTree? with
  | some s => .ok s
  | none => .error (.json "not the text of a schema")

end Schema

end LazyFields
