/-
  LazyFields.Source.File
  ────────────────────────────────
  **A RESOURCE FILE AND ITS DECLARATIONS.**

  A file imports other files, sets options and declares resources.  The body
  of a declaration lists fields, constructors and embedded resources in the
  order they were written.

  `Declaration.fields` is what the rest of the library works with.  It reads
  an embedded resource as a computed field without references, and a list
  resource as one that has, after all others, the computed field `list`.
-/
import LazyFields.Table
import LazyFields.Source.Docs
import LazyFields.Source.Token

namespace LazyFields.Source

open LazyFields.Text

/-! ## §1. Declared types. -/

/-- A type as written in a declaration. -/
inductive TypeExpr where
  /-- A primitive or a resource, by name. -/
  | named (name : String)
  /-- A list of the given type. -/
  | list (element : TypeExpr)
  /-- A map; its key is always a plain name. -/
  | map (key : String) (value : TypeExpr)
  deriving DecidableEq, Repr, Inhabited

/-- The text of a type. -/
def TypeExpr.text : TypeExpr → String
  | named name => name
  | list element => "[]" ++ element.text
  | map key value => "map[" ++ key ++ "]" ++ value.text

/-- The names in a type, from left to right. -/
def TypeExpr.names : TypeExpr → List String
  | named name => [name]
  | list element => element.names
  | map key value => key :: value.names

/-! ## §2. Items of a body. -/

/-- A field.  A static field has no reference list at all; a computed field
has one, which may be empty. -/
structure FieldDecl where
  name : String
  refs : Option (List String)
  type : Option TypeExpr
  deriving DecidableEq, Repr, Inhabited

namespace FieldDecl

/-- Static fields are given at construction and never computed. -/
def isStatic (f : FieldDecl) : Bool := f.refs.isNone

/-- The fields it is computed from. -/
def references (f : FieldDecl) : List String := f.refs.getD []

end FieldDecl

/-- An argument of a constructor. -/
structure ArgDecl where
  name : String
  optional : Bool
  type : TypeExpr
  deriving DecidableEq, Repr, Inhabited

/-- What an item of a body declares. -/
inductive ItemKind where
  | field (decl : FieldDecl)
  | init (args : List ArgDecl)
  | embed (resource : String) (given : Option String)
  deriving DecidableEq, Repr, Inhabited

/-- An item of a body, with the comments before it and the place of its first
token. -/
structure Item where
  comments : List String
  kind : ItemKind
  pos : Position
  deriving DecidableEq, Repr, Inhabited

/-! ## §3. Declarations and files. -/

/-- The head of a list resource: its element, and the references of its list
if any were written. -/
structure ListHead where
  element : String
  refs : Option (List String)
  deriving DecidableEq, Repr, Inhabited

/-- The declaration of a resource, or of an extension of one.  Its place is
that of its name. -/
structure Declaration where
  comments : List String
  isPrivate : Bool
  isExtension : Bool
  id : String
  defaults : Option String
  list : Option ListHead
  body : List Item
  pos : Position
  deriving DecidableEq, Repr, Inhabited

/-- What an import contributes: the resources that the imported file declares
and the module where their bindings live. -/
structure Pack where
  resources : NameSet
  modulePath : String
  deriving DecidableEq, Repr, Inhabited

/-- A resource file.  Once its imports are resolved, they are packs and no
imports any more. -/
structure File where
  imports : List String
  options : Table String
  resources : List Declaration
  packs : Table Pack
  deriving DecidableEq, Repr, Inhabited

/-- The file that says nothing. -/
def File.empty : File := ⟨[], ∅, [], ∅⟩

/-! ## §4. The fields of a declaration. -/

/-- A field of a declaration, whether written as such or not. -/
structure DeclaredField where
  comments : List String
  decl : FieldDecl
  isEmbedded : Bool
  line : Nat
  deriving DecidableEq, Repr, Inhabited

/-- The field name of an embedded resource: its alias, or the first segment
of its name. -/
def embedName (resource : String) : Option String → String
  | some given => given
  | none => ((splitFirst? '.' resource).map Prod.fst).getD resource

/-- The field that an item stands for; a constructor stands for none. -/
def Item.field? (item : Item) : Option DeclaredField :=
  match item.kind with
  | .field decl => some ⟨item.comments, decl, false, item.pos.line⟩
  | .embed resource given =>
      some ⟨item.comments, ⟨embedName resource given, some [], some (.named resource)⟩, true,
        item.pos.line⟩
  | .init _ => none

/-- The field that holds the elements of a list resource. -/
def ListHead.field (head : ListHead) (line : Nat) : DeclaredField :=
  ⟨[], ⟨"list", some (head.refs.getD []), some (.list (.named head.element))⟩, false, line⟩

namespace Declaration

/-- The fields in the order they were written, the `list` field last. -/
def fields (d : Declaration) : List DeclaredField :=
  d.body.filterMap Item.field? ++ (d.list.map fun head => head.field d.pos.line).toList

/-- The constructors; a schema allows only one. -/
def inits (d : Declaration) : List (List ArgDecl) :=
  d.body.filterMap fun item =>
    match item.kind with
    | .init args => some args
    | _ => none

/-- The documentation of the declaration. -/
def docs (d : Declaration) : Docs := Docs.ofComments d.comments

end Declaration

namespace File

/-- The first declaration of the given name. -/
def resource? (f : File) (id : String) : Option Declaration :=
  f.resources.find? fun d => d.id == id

/-- The pack that the first segment of a name names, and the rest of the
name. -/
def packAndName? (f : File) (name : String) : Option (String × String) :=
  (splitFirst? '.' name).filter fun p => f.packs.contains p.1

/-- The names of the declared resources. -/
def localNames (f : File) : List String := f.resources.map Declaration.id

end File

end LazyFields.Source
