/-
  LazyFields.Bindings.Items
  ────────────────────────────────
  **WHAT THE BINDINGS OF A FILE CONTAIN.**

  For every resource there is a wrapper type with one accessor for each
  field, a provider trait with one method for each computed field, and a
  function that binds those methods.  `Bindings.ofFile` lists these items;
  the text is made from the list alone, so what the bindings import can be
  read off the types that occur in them.
-/
import LazyFields.Bindings.Names
import LazyFields.Schema.Basic
import LazyFields.Source.File

namespace LazyFields.Bindings

open LazyFields.Source

/-! ## §1. Types in the bindings. -/

/-- The type of a value in the bindings. -/
inductive HostType where
  | bool
  | i64
  | f64
  | string
  | dateTime
  /-- Any value. -/
  | value
  | vec
  | map
  /-- The wrapper of a resource of the file. -/
  | wrapper (name : String)
  /-- The wrapper of a resource of a pack. -/
  | packWrapper (pack name : String)
  deriving DecidableEq, Repr

namespace HostType

/-- The type as written. -/
def text : HostType → String
  | bool => "bool"
  | i64 => "i64"
  | f64 => "f64"
  | string => "String"
  | dateTime => "DateTime<Utc>"
  | value => "Value"
  | vec => "Vec<Value>"
  | map => "BTreeMap<String, Value>"
  | wrapper name => name
  | packWrapper pack name => pack ++ "::" ++ name

/-- The pack that the type comes from. -/
def pack? : HostType → Option String
  | packWrapper pack _ => some pack
  | _ => none

/-- The type that stands for a primitive. -/
def ofPrimitive : FieldType → HostType
  | .bool => bool
  | .int => i64
  | .float => f64
  | .string | .regex => string
  | .time => dateTime
  | _ => value

/-- The type that a name stands for in a file: a primitive, a resource of the
file, a resource of a pack, or else a wrapper of that name. -/
def ofName (file : File) (name : String) : HostType :=
  match FieldType.primitive? name with
  | some t => ofPrimitive t
  | none =>
    if file.localNames.contains name then wrapper (wrapperOf name)
    else match file.packAndName? name with
      | some (pack, rest) => packWrapper pack (wrapperOf rest)
      | none => wrapper (wrapperOf name)

/-- The type that a type expression stands for; lists and maps hold any
values. -/
def ofExpr (file : File) : TypeExpr → HostType
  | .named name => ofName file name
  | .list _ => vec
  | .map _ _ => map

end HostType

/-! ## §2. Items. -/

/-- The method that reads a field. -/
structure Accessor where
  field : String
  type : HostType
  title : String
  deriving DecidableEq, Repr

/-- A parameter of a provider's method: the value of a reference. -/
structure Param where
  reference : String
  type : HostType
  deriving DecidableEq, Repr

/-- The method of a provider that computes a field. -/
structure Compute where
  field : String
  type : HostType
  params : List Param
  deriving DecidableEq, Repr

/-- The items of a resource. -/
structure Resource where
  id : String
  docs : Docs
  accessors : List Accessor
  computes : List Compute
  deriving DecidableEq, Repr

/-- The method that is generated for an accessor. -/
def Accessor.method (a : Accessor) : String := accessorName a.field

/-- The method that is generated for a computed field. -/
def Compute.method (c : Compute) : String := accessorName c.field

/-- The name that is generated for a parameter. -/
def Param.name (p : Param) : String := parameterName p.reference

/-- The wrapper that is generated for a resource. -/
def Resource.wrapper (r : Resource) : String := wrapperOf r.id

/-- The types that occur in the items of a resource. -/
def Resource.types (r : Resource) : List HostType :=
  r.accessors.map Accessor.type
    ++ r.computes.flatMap fun c => c.type :: c.params.map Param.type

/-! ## §3. The items of a file. -/

/-- The ids that a file declares, each once and in order. -/
def resourceIds (file : File) : List String := (Table.ofNames file.localNames).keys

/-- The declarations of a resource, in the order they stand. -/
def declarationsOf (file : File) (id : String) : List Declaration :=
  file.resources.filter fun d => d.id == id

/-- The fields of a resource over all its declarations. -/
def fieldsOf (file : File) (id : String) : List DeclaredField :=
  (declarationsOf file id).flatMap Declaration.fields

/-- The type of a field; a field of a valid file has one. -/
def fieldType (file : File) (f : FieldDecl) : HostType :=
  (f.type.map (HostType.ofExpr file)).getD .value

/-- The type of what a reference in the resource `id` names; what is not in
the file is only known when the bindings run. -/
def referenceType (file : File) (id reference : String) : HostType :=
  let (target, name) := splitReference reference
  match (fieldsOf file (target.getD id)).find? fun f => f.decl.name == name with
  | some f => fieldType file f.decl
  | none => .value

/-- The accessor of a field. -/
def accessorOf (file : File) (f : DeclaredField) : Accessor :=
  ⟨f.decl.name, fieldType file f.decl, (Docs.ofComments f.comments).title⟩

/-- The method that computes a field. -/
def computeOf (file : File) (id : String) (f : DeclaredField) : Compute :=
  ⟨f.decl.name, fieldType file f.decl,
    f.decl.references.map fun r => ⟨r, referenceType file id r⟩⟩

/-- The documentation of a resource: that of its base declaration, or of its
first one if it is only extended. -/
def docsOf (file : File) (id : String) : Docs :=
  let ds := declarationsOf file id
  match (ds.find? fun d => !d.isExtension).or ds.head? with
  | some d => d.docs
  | none => ⟨"", ""⟩

/-- The items of a resource. -/
def resourceOf (file : File) (id : String) : Resource where
  id
  docs := docsOf file id
  accessors := (fieldsOf file id).map (accessorOf file)
  computes := ((fieldsOf file id).filter fun f => !f.decl.isStatic).map (computeOf file id)

/-- The items of all resources of a file, by id. -/
def ofFile (file : File) : List Resource := (resourceIds file).map (resourceOf file)

/-- The types that occur in some items. -/
def typesIn (rs : List Resource) : List HostType := rs.flatMap Resource.types

/-- The packs whose wrappers occur in some items, in order. -/
def packsIn (rs : List Resource) : List String :=
  (Table.ofNames ((typesIn rs).filterMap HostType.pack?)).keys

end LazyFields.Bindings
