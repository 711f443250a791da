/-
  LazyFields.Proofs.Schema.Imported
  ────────────────────────────────
  **WHAT AN IMPORT CONTRIBUTES, AND WHAT OF IT CAN BE NAMED.**

  Of an imported file only two things get into the file that imports it: the
  ids that it declares and the value of one option.  `Contributes` is that
  part of a file, and `importedPack` the pack that comes of it.

    · `addPacks_agrees`     — readers whose imports contribute the same build
                              the same packs, whatever else they hold
    · `addPacks_keeps`      — a pack stays until an import of its name comes
    · `typeOf_packed_iff`   — a pack's resource is found under the pack's name,
                              a dot and its own name if the first has no dot

  Packs are kept by the name of the imported file, so of two imports whose
  files are called alike the later one is all that is left, and a name is cut
  at its first dot, so what a file `a.b.lr` declares cannot be named.
-/
import LazyFields.Compilation
import LazyFields.Proofs.Schema.TypeNames

namespace LazyFields

open LazyFields.Source LazyFields.Text

/-! ## §1. The pack of one import. -/

section Packs

variable {read : Reader} {option base path : String} {packs out : Table Pack}

/-- The pack that an import contributes. -/
def importedPack (read : Reader) (option base path : String) : Except Error Pack :=
  match readImport read base path with
  | .error e => .error e
  | .ok file => packOf option path file

/-- The pack holds the ids that the file declares, and the module that it
names by the option. -/
structure Source.Pack.IsOf (pack : Pack) (option : String) (file : File) : Prop where
  resources : ∀ id, pack.resources.contains id = true ↔ file.Declares id
  modulePath : file.options.get? option = some pack.modulePath

/-- The pack made of a file has the resources the file declares, and its module. -/
theorem isOf_of_packOf {file : File} {pack : Pack} (h : packOf option path file = .ok pack) :
    pack.IsOf option file := by
  unfold packOf at h
  split at h
  · simp at h
  · next modulePath hoption =>
    cases h
    refine ⟨fun id => ?_, hoption⟩
    rw [Table.contains_ofNames, ← contains_localNames]
    exact List.contains_iff_mem.symm

/-- An imported pack is that of the file that was read. -/
theorem file_of_importedPack {pack : Pack} (h : importedPack read option base path = .ok pack) :
    ∃ file, readImport read base path = .ok file ∧ pack.IsOf option file := by
  unfold importedPack at h
  split at h
  · simp at h
  · next file hfile => exact ⟨file, hfile, isOf_of_packOf h⟩

/-- An import is turned into its pack before those after it. -/
theorem addPacks_cons {paths : List String} :
    addPacks read option base (path :: paths) packs
      = match importedPack read option base path with
        | .error e => .error e
        | .ok pack => addPacks read option base paths (packs.insert (packNameOf path) pack) := by
  rw [addPacks, importedPack]
  cases readImport read base path with
  | error e => rfl
  | ok file => cases hpack : packOf option path file <;> simp only [hpack]

/-- Importing one path and then the others. -/
theorem addPacks_cons_eq_ok {paths : List String}
    (h : addPacks read option base (path :: paths) packs = .ok out) :
    ∃ pack, importedPack read option base path = .ok pack
      ∧ addPacks read option base paths (packs.insert (packNameOf path) pack) = .ok out := by
  rw [addPacks_cons] at h
  split at h
  · simp at h
  · next pack hpack => exact ⟨pack, hpack, h⟩

/-- If all imports succeed, so do the later ones, from where the earlier ones
lead. -/
theorem addPacks_append_eq_ok {before after : List String}
    (h : addPacks read option base (before ++ after) packs = .ok out) :
    ∃ middle, addPacks read option base after middle = .ok out := by
  induction before generalizing packs with
  | nil => exact ⟨packs, h⟩
  | cons path before ih =>
    obtain ⟨pack, -, hrest⟩ := addPacks_cons_eq_ok h
    exact ih hrest

/-- A pack stays when every later import of its name contributes the same. -/
theorem addPacks_keeps {paths : List String} {name : String} {pack : Pack}
    (h : addPacks read option base paths packs = .ok out) (hpack : packs.get? name = some pack)
    (hsame : ∀ later ∈ paths, packNameOf later = name →
      importedPack read option base later = .ok pack) :
    out.get? name = some pack := by
  induction paths generalizing packs with
  | nil =>
    cases h
    exact hpack
  | cons path paths ih =>
    obtain ⟨new, hnew, hrest⟩ := addPacks_cons_eq_ok h
    refine ih hrest ?_ fun later hlater => hsame later (List.mem_cons_of_mem _ hlater)
    by_cases hname : packNameOf path = name
    · obtain rfl : new = pack := by
        have := hsame path List.mem_cons_self hname
        rw [hnew] at this
        exact Except.ok.inj this
      rw [hname, Table.get?_insert_self]
    · rw [Table.get?_insert_ne packs hname, hpack]

/-- The pack of an import is there in the end, unless a later import of its
name contributes another one. -/
theorem get?_of_addPacks {before after : List String}
    (h : addPacks read option base (before ++ path :: after) packs = .ok out)
    (hlast : ∀ later ∈ after, packNameOf later = packNameOf path →
      importedPack read option base later = importedPack read option base path) :
    ∃ pack, importedPack read option base path = .ok pack
      ∧ out.get? (packNameOf path) = some pack := by
  obtain ⟨middle, hmiddle⟩ := addPacks_append_eq_ok h
  obtain ⟨pack, hpack, hrest⟩ := addPacks_cons_eq_ok hmiddle
  refine ⟨pack, hpack, addPacks_keeps hrest (Table.get?_insert_self ..) ?_⟩
  intro later hlater hname
  rw [hlast later hlater hname, hpack]

/-- What is read and parsed is resolved by turning its imports into packs. -/
theorem parsed_of_readResolved {file : File} (h : readResolved read option path = .ok file) :
    ∃ source main packs, read path = .ok source ∧ File.parse source path = .ok main
      ∧ addPacks read option (Path.parent path) main.imports main.packs = .ok packs
      ∧ file = { main with imports := [], packs } := by
  unfold readResolved at h
  split at h
  · simp at h
  · next source hsource =>
    split at h
    · simp at h
    · next main hmain =>
      unfold withImports at h
      split at h
      · simp at h
      · next packs hpacks =>
        cases h
        exact ⟨source, main, packs, hsource, hmain, hpacks, rfl⟩

end Packs

/-! ## §2. What of a pack can be named. -/

section Names

variable {file : File} {name id : String} {pack : Pack}

/-- A qualified name is no primitive type's. -/
theorem primitive?_packed (name id : String) :
    FieldType.primitive? (name ++ "." ++ id) = none := by
  have hne : ∀ p : String, '.' ∉ p.toList → name ++ "." ++ id ≠ p := by
    intro p hp heq
    subst heq
    simp at hp
  simp [FieldType.primitive?, hne]

/-- The id in a pack tells which pack a qualified name is of. -/
theorem pack_inj {pack other : String} (h : pack ++ "." ++ id = other ++ "." ++ id) :
    pack = other := by
  have hchars := congrArg String.toList h
  simp only [String.toList_append, List.append_left_inj] at hchars
  exact String.toList_inj.1 hchars

/-- **A resource of a pack is found under the name of the pack** when that has
no dot, and no resource of the file is called so. -/
theorem typeOf_packed_iff (hpack : file.packs.get? name = some pack)
    (hid : pack.resources.contains id = true) (hlocal : ¬ file.Declares (name ++ "." ++ id)) :
    typeOf file (.named (name ++ "." ++ id)) = .ok (.resource id) ↔ '.' ∉ name.toList := by
  have hprim := primitive?_packed name id
  rw [typeOf, resolveName_eq_ok_iff]
  constructor
  · intro hmeans
    generalize hfull : name ++ "." ++ id = full at hmeans hprim hlocal
    cases hmeans with
    | primitive h => rw [hprim] at h; simp at h
    | declared _ h => exact absurd h hlocal
    | packed _ _ h =>
      obtain ⟨other, _, hother, hdot, -, -⟩ := h
      rw [pack_inj (hfull.trans hother)]
      exact hdot
  · intro hdot
    exact .packed hprim hlocal ⟨name, pack, rfl, hdot, hpack, hid⟩

end Names

/-! ## §3. Imported resources are visible. -/

section Visible

/-- **Imported resources are visible.**  Resolving leaves no imports.  A pack
has what its file contributes, unless a later import of the same name
contributes something else, and its resources can be named if its name has no
dot. -/
theorem imports_visible {read : Reader} {option path : String} {file : File}
    (h : readResolved read option path = .ok file) :
    ∃ source main, read path = .ok source ∧ File.parse source path = .ok main
      ∧ file.imports = []
      ∧ ∀ before imported after, main.imports = before ++ imported :: after →
        (∀ later ∈ after, packNameOf later = packNameOf imported →
          importedPack read option (Path.parent path) later
            = importedPack read option (Path.parent path) imported) →
        ∃ child pack, readImport read (Path.parent path) imported = .ok child
          ∧ file.packs.get? (packNameOf imported) = some pack
          ∧ pack.IsOf option child
          ∧ ∀ id, child.Declares id → ¬ file.Declares (packNameOf imported ++ "." ++ id) →
            (typeOf file (.named (packNameOf imported ++ "." ++ id)) = .ok (.resource id)
              ↔ '.' ∉ (packNameOf imported).toList) := by
  obtain ⟨source, main, packs, hsource, hmain, hpacks, rfl⟩ := parsed_of_readResolved h
  refine ⟨source, main, hsource, hmain, rfl, ?_⟩
  intro before imported after himports hlast
  rw [himports] at hpacks
  obtain ⟨pack, himported, hpack⟩ := get?_of_addPacks hpacks hlast
  obtain ⟨child, hchild, hof⟩ := file_of_importedPack himported
  refine ⟨child, pack, hchild, hpack, hof, ?_⟩
  intro id hid hlocal
  exact typeOf_packed_iff hpack ((hof.resources id).2 hid) hlocal

/-- A declaration without a body. -/
def bareDeclaration (id : String) (line : Nat) : Declaration where
  comments := []
  isPrivate := false
  isExtension := false
  id := id
  defaults := none
  list := none
  body := []
  pos := ⟨line, 1⟩

/-- A file that imports one file twice, and another one. -/
def repeatingShelf : Reader := shelf
  [("l/os.lr", "import \"core.lr\"\nimport \"net.lr\"\nimport \"core.lr\"\n\nfile \x7b\n\x7d\n"),
   ("l/core.lr", "option go_package = \"c\"\n\nuser \x7b\n\x7d\n"),
   ("l/net.lr", "option go_package = \"n\"\n\nhost \x7b\n\x7d\n")]

/-- What is read from `repeatingShelf`. -/
def repeatingFile : File where
  imports := []
  options := ∅
  resources := [bareDeclaration "file" 5]
  packs := Table.ofList
    [("core", ⟨Table.ofNames ["user"], "c"⟩), ("net", ⟨Table.ofNames ["host"], "n"⟩)]

theorem imports_visible_repeating :
    readResolved repeatingShelf defaultPackageOption "l/os.lr" = .ok repeatingFile
      ∧ ∃ child pack, readImport repeatingShelf "l" "core.lr" = .ok child
        ∧ repeatingFile.packs.get? "core" = some pack
        ∧ pack.IsOf defaultPackageOption child
        ∧ ∀ id, child.Declares id → ¬ repeatingFile.Declares ("core" ++ "." ++ id) →
          (typeOf repeatingFile (.named ("core" ++ "." ++ id)) = .ok (.resource id)
            ↔ '.' ∉ "core".toList) := by
  have hfile : readResolved repeatingShelf defaultPackageOption "l/os.lr" = .ok repeatingFile := by
    decide +kernel
  refine ⟨hfile, ?_⟩
  obtain ⟨source, main, hsource, hparse, -, hvisible⟩ := imports_visible hfile
  have hplain : File.parse source "l/os.lr" = .ok { repeatingFile with
      imports := ["core.lr", "net.lr", "core.lr"], packs := ∅ } := by
    cases hsource
    decide +kernel
  rw [hplain] at hparse
  cases hparse
  have hparent : Path.parent "l/os.lr" = "l" := by decide +kernel
  have hcore : packNameOf "core.lr" = "core" := by decide +kernel
  have hnet : packNameOf "net.lr" = "net" := by decide +kernel
  have hfirst := hvisible [] "core.lr" ["net.lr", "core.lr"] rfl
  rw [hparent, hcore] at hfirst
  refine hfirst fun later hlater hname => ?_
  -- the second import has another name, the third is the first again
  rcases List.mem_cons.1 hlater with rfl | hlater
  · rw [hnet] at hname
    exact absurd hname (by decide)
  · rw [List.mem_singleton.1 hlater]

/-- A file that imports two files of one name. -/
def collidingShelf : Reader := shelf
  [("os.lr", "import \"a/core.lr\"\nimport \"b/core.lr\"\n\nfile \x7b\n\x7d\n"),
   ("a/core.lr", "option go_package = \"a\"\n\nuser \x7b\n\x7d\n"),
   ("b/core.lr", "option go_package = \"b\"\n\ngroup \x7b\n\x7d\n")]

/-- What is read from `collidingShelf`: only the second pack is left. -/
def collidingFile : File where
  imports := []
  options := ∅
  resources := [bareDeclaration "file" 4]
  packs := Table.ofList [("core", ⟨Table.ofNames ["group"], "b"⟩)]

/-- A file that imports one whose name has a dot. -/
def dottedShelf : Reader := shelf
  [("os.lr", "import \"a.b.lr\"\n\nfile \x7b\n\x7d\n"),
   ("a.b.lr", "option go_package = \"b\"\n\nuser \x7b\n\x7d\n")]

/-- What is read from `dottedShelf`. -/
def dottedFile : File where
  imports := []
  options := ∅
  resources := [bareDeclaration "file" 3]
  packs := Table.ofList [("a.b", ⟨Table.ofNames ["user"], "b"⟩)]

/-- Not every import has its pack, and not every resource of a pack can be
named. -/
theorem imports_not_all_visible :
    (¬ ∀ (read : Reader) (option path source : String) (file main : File),
      readResolved read option path = .ok file → read path = .ok source →
      File.parse source path = .ok main →
      ∀ imported ∈ main.imports, ∀ child,
        readImport read (Path.parent path) imported = .ok child →
        ∃ pack, file.packs.get? (packNameOf imported) = some pack ∧ pack.IsOf option child)
    ∧ ¬ ∀ (read : Reader) (option path source : String) (file main : File),
      readResolved read option path = .ok file → read path = .ok source →
      File.parse source path = .ok main →
      ∀ imported ∈ main.imports, ∀ child,
        readImport read (Path.parent path) imported = .ok child →
        ∀ id, child.Declares id → ¬ file.Declares (packNameOf imported ++ "." ++ id) →
          typeOf file (.named (packNameOf imported ++ "." ++ id)) = .ok (.resource id) := by
  constructor
  · intro h
    -- the pack of the first import is gone
    obtain ⟨pack, hpack, hof⟩ := h collidingShelf defaultPackageOption "os.lr" _ collidingFile
      { collidingFile with imports := ["a/core.lr", "b/core.lr"], packs := ∅ }
      (by decide +kernel) rfl (by decide +kernel) "a/core.lr" List.mem_cons_self
      ⟨[], Table.ofList [("go_package", "a")], [bareDeclaration "user" 3], ∅⟩ (by decide +kernel)
    have hname : packNameOf "a/core.lr" = "core" := by decide +kernel
    obtain rfl : (⟨Table.ofNames ["group"], "b"⟩ : Pack) = pack := by
      rw [hname] at hpack
      exact Option.some.inj hpack
    exact absurd hof.modulePath (by decide)
  · intro h
    have hlocal : ¬ dottedFile.Declares (packNameOf "a.b.lr" ++ "." ++ "user") := by
      rw [← contains_localNames]
      decide +kernel
    have htype := h dottedShelf defaultPackageOption "os.lr" _ dottedFile
      { dottedFile with imports := ["a.b.lr"], packs := ∅ }
      (by decide +kernel) rfl (by decide +kernel) "a.b.lr" List.mem_cons_self
      ⟨[], Table.ofList [("go_package", "b")], [bareDeclaration "user" 3], ∅⟩ (by decide +kernel)
      "user" ⟨_, List.mem_cons_self, rfl⟩ hlocal
    have hpack : dottedFile.packs.get? (packNameOf "a.b.lr")
        = some ⟨Table.ofNames ["user"], "b"⟩ := by
      decide +kernel
    exact (typeOf_packed_iff hpack (by decide) hlocal).1 htype (by decide +kernel)

end Visible

/-! ## §4. Nothing else of an import gets in. -/

section Contributions

/-- Two files contribute the same: the ids that they declare, and the value of
the option. -/
structure Source.File.ContributesLike (f g : File) (option : String) : Prop where
  declares : ∀ id, f.Declares id ↔ g.Declares id
  value : f.options.get? option = g.options.get? option

/-- At the path, both readers give the same text, or files that contribute the
same. -/
def ContributeAlike (read₁ read₂ : Reader) (option path : String) : Prop :=
  read₁ path = read₂ path
    ∨ ∃ source₁ source₂ file₁ file₂, read₁ path = .ok source₁ ∧ read₂ path = .ok source₂
      ∧ File.parse source₁ path = .ok file₁ ∧ File.parse source₂ path = .ok file₂
      ∧ file₁.ContributesLike file₂ option

variable {read₁ read₂ : Reader} {option base path : String}

/-- Files that declare the same have the same local names. -/
theorem ofNames_congr {f g : File} (h : ∀ id, f.Declares id ↔ g.Declares id) :
    Table.ofNames f.localNames = Table.ofNames g.localNames := by
  refine Table.ext_get? fun id => ?_
  have hcontains : (Table.ofNames f.localNames).contains id
      = (Table.ofNames g.localNames).contains id := by
    rw [Bool.eq_iff_iff, Table.contains_ofNames, Table.contains_ofNames, ← List.contains_iff_mem,
      ← List.contains_iff_mem, contains_localNames, contains_localNames]
    exact h id
  -- a set stores nothing but that a name is in it
  unfold Table.contains at hcontains
  cases hf : (Table.ofNames f.localNames).get? id <;>
    cases hg : (Table.ofNames g.localNames).get? id <;> simp_all

/-- Files that contribute alike make the same pack. -/
theorem packOf_congr {f g : File} (h : f.ContributesLike g option) :
    packOf option path f = packOf option path g := by
  unfold packOf
  rw [h.value, ofNames_congr h.declares]

/-- Readers that contribute alike import the same packs. -/
theorem importedPack_congr (h : ContributeAlike read₁ read₂ option (Path.join base path)) :
    importedPack read₁ option base path = importedPack read₂ option base path := by
  unfold importedPack readImport
  rcases h with h | ⟨source₁, source₂, file₁, file₂, h₁, h₂, hfile₁, hfile₂, hlike⟩
  · simp only [h]
  · simp only [h₁, h₂, hfile₁, hfile₂]
    exact packOf_congr hlike

/-- Readers whose imports contribute the same build the same packs. -/
theorem addPacks_agrees {paths : List String} {packs : Table Pack}
    (h : ∀ path ∈ paths, ContributeAlike read₁ read₂ option (Path.join base path)) :
    addPacks read₁ option base paths packs = addPacks read₂ option base paths packs := by
  induction paths generalizing packs with
  | nil => rfl
  | cons path paths ih =>
    rw [addPacks_cons, addPacks_cons, importedPack_congr (h path List.mem_cons_self)]
    cases importedPack read₂ option base path with
    | error e => rfl
    | ok pack => exact ih fun path' hpath' => h path' (List.mem_cons_of_mem _ hpath')

/-- **Imports contribute their ids and one option, and nothing else.**  The
hypotheses are about the main file and what it imports; what the readers have
at any other path, such as that of an import of an import, makes no
difference. -/
theorem imports_contribute_only (hmain : read₁ path = read₂ path)
    (himports : ∀ source main, read₁ path = .ok source → File.parse source path = .ok main →
      ∀ imported ∈ main.imports,
        ContributeAlike read₁ read₂ option (Path.join (Path.parent path) imported)) :
    readResolved read₁ option path = readResolved read₂ option path
      ∧ ∀ options : Compilation.Options, options.packageOption = option →
        Compilation.ofFile options read₁ path = Compilation.ofFile options read₂ path := by
  have hresolved : readResolved read₁ option path = readResolved read₂ option path := by
    unfold readResolved
    rw [← hmain]
    cases hsource : read₁ path with
    | error reason => rfl
    | ok source =>
      dsimp only
      cases hparse : File.parse source path with
      | error e => rfl
      | ok main =>
        dsimp only
        unfold withImports
        rw [addPacks_agrees (himports source main hsource hparse)]
  refine ⟨hresolved, ?_⟩
  intro options hoption
  unfold Compilation.ofFile
  rw [hoption, hresolved]

/-- A file and its import. -/
def plainShelf : Reader := shelf
  [("l/os.lr", "import \"core.lr\"\n\nfile \x7b\n  owner core.user\n\x7d\n"),
   ("l/core.lr", "option go_package = \"c\"\n\nuser \x7b\n  name string\n\x7d\n\ngroup\n")]

/-- A text that contributes what the import of `plainShelf` does. -/
def otherText : String :=
  "import \"no.lr\"\noption go_package = \"c\"\n\n// all\ngroup \x7b\n  init(id int)\n\x7d\n\nuser"

/-- The file of `plainShelf`, with an import in which all is different that does
not matter; what that one imports is not there. -/
def otherShelf : Reader := shelf
  [("l/os.lr", "import \"core.lr\"\n\nfile \x7b\n  owner core.user\n\x7d\n"),
   ("l/core.lr", otherText)]

/-- The main file of both. -/
def plainMain : File where
  imports := ["core.lr"]
  options := ∅
  resources :=
    [{ bareDeclaration "file" 3 with
       body := [⟨[], .field ⟨"owner", none, some (.named "core.user")⟩, ⟨4, 3⟩⟩] }]
  packs := ∅

/-- What `plainMain` imports in `plainShelf`. -/
def plainImport : File where
  imports := []
  options := Table.ofList [("go_package", "c")]
  resources :=
    [{ bareDeclaration "user" 3 with
       body := [⟨[], .field ⟨"name", none, some (.named "string")⟩, ⟨4, 3⟩⟩] },
     bareDeclaration "group" 7]
  packs := ∅

/-- What `plainMain` imports in `otherShelf`. -/
def otherImport : File where
  imports := ["no.lr"]
  options := Table.ofList [("go_package", "c")]
  resources :=
    [{ bareDeclaration "group" 5 with
       comments := ["// all"]
       body := [⟨[], .init [⟨"id", false, .named "int"⟩], ⟨6, 3⟩⟩] },
     bareDeclaration "user" 9]
  packs := ∅

theorem imports_contribute_only_plain :
    plainShelf "l/os.lr" = otherShelf "l/os.lr"
      ∧ ContributeAlike plainShelf otherShelf defaultPackageOption "l/core.lr"
      ∧ readResolved plainShelf defaultPackageOption "l/os.lr"
        = readResolved otherShelf defaultPackageOption "l/os.lr"
      ∧ ∀ options : Compilation.Options, options.packageOption = defaultPackageOption →
        Compilation.ofFile options plainShelf "l/os.lr"
          = Compilation.ofFile options otherShelf "l/os.lr" := by
  have hmain : plainShelf "l/os.lr" = otherShelf "l/os.lr" := rfl
  have hlike : plainImport.ContributesLike otherImport defaultPackageOption := by
    refine ⟨fun id => ?_, rfl⟩
    simp [Source.File.Declares, plainImport, otherImport, bareDeclaration]
    grind
  have halike : ContributeAlike plainShelf otherShelf defaultPackageOption "l/core.lr" :=
    .inr ⟨_, _, plainImport, otherImport, rfl, rfl, by decide +kernel, by decide +kernel, hlike⟩
  refine ⟨hmain, halike, imports_contribute_only hmain ?_⟩
  -- the file has one import, and that is where the two shelves differ
  intro source main hsource hparse imported himported
  have hplain : File.parse source "l/os.lr" = .ok plainMain := by
    cases hsource
    decide +kernel
  obtain rfl : plainMain = main := by
    rw [hplain] at hparse
    exact Except.ok.inj hparse
  obtain rfl : imported = "core.lr" := by simpa [plainMain] using himported
  have hpath : Path.join (Path.parent "l/os.lr") "core.lr" = "l/core.lr" := by decide +kernel
  rw [hpath]
  exact halike

end Contributions

end LazyFields
