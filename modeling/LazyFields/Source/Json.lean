/-
  LazyFields.Source.Json
  ────────────────────────────────
  **A FILE AS JSON.**

  Tools that do not parse resource files themselves get them as JSON: every
  part under its name, an absent part as `null`, the packs only if there are
  any.
-/
import LazyFields.Json.Basic
import LazyFields.Source.File

namespace LazyFields.Source

/-- A number as JSON. -/
def natJson (n : Nat) : Json := .int n

/-- Texts as JSON. -/
def textsJson (texts : List String) : Json := .array (texts.map .string)

/-- A text that may be absent. -/
def textJson? : Option String → Json
  | none => .null
  | some s => .string s

/-- A name as JSON. -/
def nameJson (name : String) : Json := .object [("name", .string name)]

/-- A reference list, which may be absent. -/
def refsJson : Option (List String) → Json
  | none => .null
  | some refs => .object [("list", .array (refs.map nameJson))]

/-- A type as JSON. -/
def TypeExpr.toJson : TypeExpr → Json
  | named name => .object [("Simple", nameJson name)]
  | list element => .object [("List", element.toJson)]
  | map key value => .object [("Map", .object [("key", nameJson key), ("value", value.toJson)])]

/-- An argument as JSON. -/
def ArgDecl.toJson (a : ArgDecl) : Json :=
  .object [("id", .string a.name), ("optional", .bool a.optional), ("ty", a.type.toJson)]

/-- What an item declares, as JSON. -/
def ItemKind.toJson : ItemKind → Json
  | field decl =>
      .object [("Basic", .object
        [("id", .string decl.name), ("args", refsJson decl.refs),
         ("ty", (decl.type.map TypeExpr.toJson).getD .null)])]
  | init args => .object [("Init", .object [("args", .array (args.map ArgDecl.toJson))])]
  | embed resource given =>
      .object [("Embed", .object [("ty", .string resource), ("alias", textJson? given)])]

/-- An item as JSON. -/
def Item.toJson (item : Item) : Json :=
  .object
    [("comments", textsJson item.comments), ("kind", item.kind.toJson),
     ("line", natJson item.pos.line), ("column", natJson item.pos.column)]

/-- The head of a list resource, which may be absent. -/
def listJson : Option ListHead → Json
  | none => .null
  | some head => .object [("element", nameJson head.element), ("args", refsJson head.refs)]

/-- A declaration as JSON. -/
def Declaration.toJson (d : Declaration) : Json :=
  .object
    [("comments", textsJson d.comments), ("is_private", .bool d.isPrivate),
     ("is_extension", .bool d.isExtension), ("id", .string d.id),
     ("defaults", textJson? d.defaults), ("list_type", listJson d.list),
     ("body", .array (d.body.map Item.toJson)),
     ("line", natJson d.pos.line), ("column", natJson d.pos.column)]

/-- A pack as JSON. -/
def Pack.toJson (p : Pack) : Json :=
  .object [("resources", textsJson p.resources.keys), ("module_path", .string p.modulePath)]

/-- Packs as JSON. -/
def packsJson (packs : Table Pack) : Json := .object (packs.map Pack.toJson).entries

/-- A file as JSON. -/
def File.toJson (f : File) : Json :=
  .object
    ([("imports", textsJson f.imports), ("options", .object (f.options.map .string).entries),
      ("resources", .array (f.resources.map Declaration.toJson))]
      ++ if f.packs.isEmpty then [] else [("packs", packsJson f.packs)])

end LazyFields.Source
