/-
  LazyFields.Schema.Build
  ────────────────────────────────
  **FROM A FILE TO ITS SCHEMA.**

  A resource may be declared once and extended any number of times; its
  declarations are joined in the order they stand.  `File.schema` refuses a
  file with

    · a field without a type, or a type whose name means nothing
    · a field, a constructor or a resource that is declared twice
    · a constructor whose argument has another type than the field of its
      name, or that requires an argument after an optional one
    · a reference to a field that does not exist
    · computed fields that depend on each other in a loop

  and reports the first of these it meets: declaration by declaration, then
  the references, then the loops.
-/
import LazyFields.Schema.Cycles
import LazyFields.Source.File

namespace LazyFields

open LazyFields.Source

/-! ## §1. What may be wrong. -/

/-- A rule of the schema that a declaration breaks. -/
inductive Fault where
  /-- A field is declared without a type. -/
  | noType
  /-- A type name means nothing. -/
  | unknownType (name : String)
  /-- A pack does not declare the resource. -/
  | unknownInPack (resource pack : String)
  | fieldTwice
  | resourceTwice
  | initTwice
  | initTypeDiffers
  | requiredAfterOptional
  | unknownDependency (reference : String)

namespace Fault

/-- What is said where no type is found. -/
def noTypeDetected : String := "NO_TYPE_DETECTED"

/-- How the fault is said. -/
def text : Fault → String
  | noType => noTypeDetected
  | unknownType name => noTypeDetected ++ " (" ++ name ++ ")"
  | unknownInPack resource pack =>
      "unknown resource '" ++ resource ++ "' in pack '" ++ pack ++ "'"
  | fieldTwice => "field declared more than once"
  | resourceTwice => "resource declared more than once"
  | initTwice => "duplicate init declaration"
  | initTypeDiffers => "init field type and resource field type differ"
  | requiredAfterOptional => "required init argument follows an optional one"
  | unknownDependency reference => "unknown dependency '" ++ reference ++ "'"

/-- The fault of a resource. -/
def ofResource (id : String) (fault : Fault) : Error := .semantic id none fault.text

/-- The fault of a field of a resource. -/
def ofField (id field : String) (fault : Fault) : Error := .semantic id (some field) fault.text

end Fault

/-! ## §2. Resolving types. -/

/-- The type that a name means in a file: a primitive, a declared resource, or
a resource of a pack. -/
def resolveName (file : File) (name : String) : Except Fault FieldType :=
  match FieldType.primitive? name with
  | some t => .ok t
  | none =>
    if file.localNames.contains name then .ok (.resource name)
    else match file.packAndName? name with
      | some (pack, rest) =>
          if (file.packs.get? pack).any fun p => p.resources.contains rest then
            .ok (.resource rest)
          else .error (.unknownInPack rest pack)
      | none => .error (.unknownType name)

/-- The type that a type expression means in a file. -/
def typeOf (file : File) : TypeExpr → Except Fault FieldType
  | .named name => resolveName file name
  | .list element =>
      match typeOf file element with
      | .error e => .error e
      | .ok t => .ok (.array t)
  | .map key value =>
      match resolveName file key with
      | .error e => .error e
      | .ok k =>
        match typeOf file value with
        | .error e => .error e
        | .ok v => .ok (.map k v)

/-! ## §3. One declaration. -/

/-- The schema of a field of the resource `id`. -/
def buildField (file : File) (id : String) (f : DeclaredField) : Except Error FieldSpec :=
  match f.decl.type with
  | none => .error (Fault.ofField id f.decl.name .noType)
  | some type =>
    match typeOf file type with
    | .error fault => .error (Fault.ofField id f.decl.name fault)
    | .ok t =>
        let docs := Docs.ofComments f.comments
        .ok { name := f.decl.name, type := t, mandatory := f.decl.isStatic,
              refs := f.decl.references, title := docs.title, desc := docs.desc,
              isEmbedded := f.isEmbedded }

/-- The schema of some fields, added to those before them. -/
def buildFields (file : File) (id : String) :
    List DeclaredField → Table FieldSpec → Except Error (Table FieldSpec)
  | [], fields => .ok fields
  | f :: fs, fields =>
      match buildField file id f with
      | .error e => .error e
      | .ok info =>
        if fields.contains info.name then .error (Fault.ofField id info.name .fieldTwice)
        else buildFields file id fs (fields.insert info.name info)

/-- The schema of constructor arguments, given the fields of the declaration
and whether an optional argument came before. -/
def buildArgs (file : File) (id : String) (fields : Table FieldSpec) :
    Bool → List ArgDecl → Except Error (List Parameter)
  | _, [] => .ok []
  | afterOptional, a :: rest =>
      match typeOf file a.type with
      | .error fault => .error (Fault.ofField id a.name fault)
      | .ok t =>
        if (fields.get? a.name).any fun f => f.type != t then
          .error (Fault.ofField id a.name .initTypeDiffers)
        else if afterOptional && !a.optional then
          .error (Fault.ofField id a.name .requiredAfterOptional)
        else match buildArgs file id fields (afterOptional || a.optional) rest with
          | .error e => .error e
          | .ok args => .ok (⟨a.name, t, a.optional⟩ :: args)

/-- The schema of the constructor of a declaration. -/
def buildInit (file : File) (id : String) (fields : Table FieldSpec) :
    List (List ArgDecl) → Except Error (Option (List Parameter))
  | [] => .ok none
  | [args] =>
      match buildArgs file id fields false args with
      | .error e => .error e
      | .ok args => .ok (some args)
  | _ :: _ :: _ => .error (Fault.ofResource id .initTwice)

/-- The type of the elements of a list resource. -/
def buildListType (file : File) (id : String) :
    Option ListHead → Except Error (Option FieldType)
  | none => .ok none
  | some head =>
      match resolveName file head.element with
      | .error fault => .error (Fault.ofField id "list" fault)
      | .ok t => .ok (some t)

/-- The schema of one declaration. -/
def buildDeclaration (file : File) (d : Declaration) : Except Error ResourceSpec :=
  match buildListType file d.id d.list with
  | .error e => .error e
  | .ok listType =>
    match buildFields file d.id d.fields ∅ with
    | .error e => .error e
    | .ok fields =>
      match buildInit file d.id fields d.inits with
      | .error e => .error e
      | .ok init =>
          .ok { id := d.id, name := d.id, title := d.docs.title, desc := d.docs.desc,
                init, isPrivate := d.isPrivate, isExtension := d.isExtension,
                defaults := d.defaults.getD "", fields, listType }

/-! ## §4. Joining declarations. -/

/-- Add the fields of a further declaration to those of a resource. -/
def joinFields (id : String) :
    List (String × FieldSpec) → Table FieldSpec → Except Error (Table FieldSpec)
  | [], fields => .ok fields
  | (name, f) :: rest, fields =>
      if fields.contains name then .error (Fault.ofField id name .fieldTwice)
      else joinFields id rest (fields.insert name f)

/-- Join a further declaration to a resource.  The base declaration says what
the resource is, whether it stands before or after its extensions. -/
def joinDeclaration (existing info : ResourceSpec) : Except Error ResourceSpec :=
  if !info.isExtension && !existing.isExtension then
    .error (Fault.ofResource info.id .resourceTwice)
  else match joinFields info.id info.fields.entries existing.fields with
    | .error e => .error e
    | .ok fields =>
      if existing.init.isSome && info.init.isSome then
        .error (Fault.ofResource info.id .initTwice)
      else
        let said := if info.isExtension then existing else info
        .ok { id := existing.id, name := existing.name, title := said.title, desc := said.desc,
              init := existing.init.or info.init
              isPrivate := said.isPrivate
              isExtension := existing.isExtension && info.isExtension
              defaults := if existing.defaults = "" then info.defaults else existing.defaults
              fields
              listType := existing.listType.or info.listType }

/-- Add a declaration to the resources declared before it. -/
def addDeclaration (file : File) (resources : Table ResourceSpec) (d : Declaration) :
    Except Error (Table ResourceSpec) :=
  match buildDeclaration file d with
  | .error e => .error e
  | .ok info =>
    match resources.get? d.id with
    | none => .ok (resources.insert d.id info)
    | some existing =>
      match joinDeclaration existing info with
      | .error e => .error e
      | .ok joined => .ok (resources.insert d.id joined)

/-- Add declarations to the resources declared before them. -/
def addDeclarations (file : File) :
    List Declaration → Table ResourceSpec → Except Error (Table ResourceSpec)
  | [], resources => .ok resources
  | d :: ds, resources =>
      match addDeclaration file resources d with
      | .error e => .error e
      | .ok resources => addDeclarations file ds resources

/-! ## §5. References. -/

/-- Whether a reference in the resource `info` names something.  A field of a
resource that is only extended here cannot be checked; of a resource in a
pack only its name is known. -/
def knowsReference (file : File) (schema : Schema) (info : ResourceSpec)
    (reference : String) : Bool :=
  match splitReference reference with
  | (none, field) => info.isExtension || info.fields.contains field
  | (some target, field) =>
      match schema.resource? target with
      | some other => other.isExtension || other.fields.contains field
      | none =>
          (file.packAndName? target).any fun (pack, rest) =>
            (file.packs.get? pack).any fun p => p.resources.contains rest

/-- The references of a schema: resource, field and text of each, in order. -/
def Schema.references (s : Schema) : List (ResourceSpec × String × String × String) :=
  s.resources.entries.flatMap fun (id, info) =>
    info.fields.values.flatMap fun f => f.refs.map fun r => (info, id, f.name, r)

/-- Refuse a reference that names nothing. -/
def checkReferences (file : File) (schema : Schema) : Except Error Unit :=
  match schema.references.find? fun (info, _, _, r) => !knowsReference file schema info r with
  | none => .ok ()
  | some (_, id, field, r) => .error (Fault.ofField id field (.unknownDependency r))

/-! ## §6. The schema of a file. -/

/-- The schema of a file, or the first fault in it. -/
def Source.File.schema (file : File) : Except Error Schema :=
  match addDeclarations file file.resources ∅ with
  | .error e => .error e
  | .ok resources =>
    match checkReferences file ⟨resources⟩ with
    | .error e => .error e
    | .ok () =>
      match Schema.checkAcyclic ⟨resources⟩ with
      | .error e => .error e
      | .ok () => .ok ⟨resources⟩

end LazyFields
