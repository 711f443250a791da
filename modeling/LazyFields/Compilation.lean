/-
  LazyFields.Compilation
  ────────────────────────────────
  **FROM A FILE TO SCHEMA AND BINDINGS.**

  Compiling resolves the imports of a file, builds its schema and writes its
  bindings.  A file is read by a `Reader`; a text alone cannot import
  anything.
-/
import LazyFields.Bindings.Text
import LazyFields.Imports
import LazyFields.Schema.Build

namespace LazyFields

open LazyFields.Source

/-- How a file is compiled. -/
structure Compilation.Options where
  /-- The option that names the module of an imported file's bindings. -/
  packageOption : String
  bindings : Bindings.Options
  deriving DecidableEq, Repr

/-- What compiling gives. -/
structure Compilation where
  /-- The file, its imports turned into packs. -/
  file : File
  schema : Schema
  /-- The text of the bindings. -/
  code : String
  /-- The digest of the schema. -/
  digest : String

namespace Compilation

/-- The options that nothing was said about. -/
def Options.default : Options where
  packageOption := defaultPackageOption
  bindings :=
    { runtimeCrate := "lr"
      embedSchema := true
      header := "// Code generated by lr. DO NOT EDIT." }

/-- Compile a file whose imports are packs. -/
def ofResolved (options : Options) (file : File) : Except Error Compilation :=
  match file.schema with
  | .error e => .error e
  | .ok schema =>
      .ok ⟨file, schema, Bindings.text options.bindings file schema, schema.digest⟩

/-- Compile the file at a path. -/
def ofFile (options : Options) (read : Reader) (path : String) : Except Error Compilation :=
  match readResolved read options.packageOption path with
  | .error e => .error e
  | .ok file => ofResolved options file

/-- The reader of a text that stands alone: it has no other files. -/
def noFiles : Reader := fun path =>
  .error ("cannot read " ++ path ++ " when compiling from source")

/-- Compile a text; errors name `name`. -/
def ofText (options : Options) (source name : String) : Except Error Compilation :=
  match File.parse source name with
  | .error e => .error e
  | .ok file =>
    match withImports noFiles options.packageOption "" file with
    | .error e => .error e
    | .ok file => ofResolved options file

end Compilation

/-- The version of the compiler. -/
def version : String := "0.3.0"

end LazyFields
