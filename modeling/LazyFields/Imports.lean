/-
  LazyFields.Imports
  ────────────────────────────────
  **RESOLVING IMPORTS.**

  An import contributes a pack: the ids that the imported file declares and
  the module where its bindings live, which the file itself must name by an
  option.  A pack is called like its file without the `.lr` at the end.
  Imports of an imported file are never read.

  Where the files come from is a `Reader`: any function from paths to texts.
  `Disk.reader` is the one that reads from a disk.
-/
import LazyFields.Disk
import LazyFields.Source.Parse
import LazyFields.Text.Path

namespace LazyFields

open LazyFields.Source LazyFields.Text

/-! ## §1. Readers. -/

/-- Gives the text of a file, or the reason why there is none. -/
abbrev Reader := String → Except String String

/-- The files of a disk. -/
def Disk.reader (d : Disk) : Reader := fun path =>
  match d.read path with
  | .ok text => .ok text
  | .error r => .error r.text

/-! ## §2. Packs. -/

/-- The option that names the module of a file's bindings, by default. -/
def defaultPackageOption : String := "go_package"

/-- The name of the pack of an import. -/
def packNameOf (path : String) : String :=
  let name := (Path.fileName? path).getD path
  let cs := name.toList
  match stripStart? ['r', 'l', '.'] cs.reverse with
  | some rest => String.ofList rest.reverse
  | none => name

/-- The file of an import, read and parsed. -/
def readImport (read : Reader) (base path : String) : Except Error File :=
  let full := Path.join base path
  match read full with
  | .error reason => .error (.importError path reason)
  | .ok source =>
    match File.parse source full with
    | .error e => .error (.importError path e.message)
    | .ok file => .ok file

/-- The pack that an imported file contributes. -/
def packOf (option path : String) (file : File) : Except Error Pack :=
  match file.options.get? option with
  | none => .error (.missingPackageOption path option)
  | some modulePath => .ok ⟨Table.ofNames file.localNames, modulePath⟩

/-- The packs of some imports, added to those before them. -/
def addPacks (read : Reader) (option base : String) :
    List String → Table Pack → Except Error (Table Pack)
  | [], packs => .ok packs
  | path :: paths, packs =>
      match readImport read base path with
      | .error e => .error e
      | .ok file =>
        match packOf option path file with
        | .error e => .error e
        | .ok pack => addPacks read option base paths (packs.insert (packNameOf path) pack)

/-- Turn the imports of a file into packs; they are read relative to `base`. -/
def withImports (read : Reader) (option base : String) (file : File) : Except Error File :=
  match addPacks read option base file.imports file.packs with
  | .error e => .error e
  | .ok packs => .ok { file with imports := [], packs }

/-- Read, parse and resolve the file at a path. -/
def readResolved (read : Reader) (option path : String) : Except Error File :=
  match read path with
  | .error reason => .error (.io path reason)
  | .ok source =>
    match File.parse source path with
    | .error e => .error e
    | .ok file => withImports read option (Path.parent path) file

end LazyFields
