/-
  LazyFields.Schema.Basic
  ────────────────────────────────
  **THE SCHEMA OF A SET OF RESOURCES.**

  A schema says of each resource which fields it has, how it is constructed,
  and what its elements are if it is a list.  Types are resolved; references
  stay as they were written.
-/
import LazyFields.FieldType
import LazyFields.Table

namespace LazyFields

/-- A field of a resource. -/
structure FieldSpec where
  name : String
  type : FieldType
  /-- Static: given at construction and never computed. -/
  mandatory : Bool
  /-- The fields it is computed from, in the order its logic gets them. -/
  refs : List String
  title : String
  desc : String
  isEmbedded : Bool
  deriving DecidableEq, Repr, Inhabited

/-- An argument of a constructor. -/
structure Parameter where
  name : String
  type : FieldType
  optional : Bool
  deriving DecidableEq, Repr, Inhabited

/-- A resource. -/
structure ResourceSpec where
  id : String
  name : String
  title : String
  desc : String
  init : Option (List Parameter)
  isPrivate : Bool
  /-- All its declarations extend a resource that is declared elsewhere. -/
  isExtension : Bool
  /-- What the `@defaults` annotation says, empty without one. -/
  defaults : String
  fields : Table FieldSpec
  /-- The type of the elements of a list resource. -/
  listType : Option FieldType
  deriving DecidableEq, Repr, Inhabited

/-- Resources by their ids. -/
structure Schema where
  resources : Table ResourceSpec
  deriving DecidableEq, Repr, Inhabited

namespace FieldSpec

/-- Static fields are given at construction and never computed. -/
def isStatic (f : FieldSpec) : Bool := f.mandatory

end FieldSpec

namespace ResourceSpec

/-- The field of the given name. -/
def field? (r : ResourceSpec) (name : String) : Option FieldSpec := r.fields.get? name

/-- The static fields, by name. -/
def statics (r : ResourceSpec) : List FieldSpec := r.fields.values.filter FieldSpec.isStatic

end ResourceSpec

namespace Schema

/-- The schema without resources. -/
def empty : Schema := ⟨∅⟩

instance : EmptyCollection Schema := ⟨empty⟩

/-- The resource of the given id. -/
def resource? (s : Schema) (id : String) : Option ResourceSpec := s.resources.get? id

end Schema

/-- The resource and the field that a reference names.  It ends in the field;
without a dot it names a field of the resource it stands in. -/
def splitReference (reference : String) : Option String × String :=
  match Text.splitLast? '.' reference with
  | some (resource, field) => (some resource, field)
  | none => (none, reference)

end LazyFields
