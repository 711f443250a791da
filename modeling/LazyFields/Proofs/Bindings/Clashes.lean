/-
  LazyFields.Proofs.Bindings.Clashes
  ────────────────────────────────
  **WHICH GENERATED NAMES CLASH.**

  The bindings declare three items for each resource, next to those that they import.
  A resource never has the name of an imported item, since such names are reserved.
  Nothing looks for two ids that fold to one name, so these clash, and no others do:

    · `beginning_importLines` — what is imported, line by line
    · `beginning_lines`       — what is declared for a resource, line by line
    · `generated_names`       — which of these names can be equal, for a file that was
                                parsed

  That ids clash, and in which ways, is shown by files with two resources
  (`generated_names_clash`).
-/
import LazyFields.Proofs.Bindings.Described
import LazyFields.Proofs.Bindings.Names

namespace LazyFields.Bindings

open LazyFields.Source LazyFields.Text

/-! ## §1. Imports. -/

/-- The items that the bindings import, by the paths they come from. -/
def imported (crate : String) (types : List HostType) : List (String × List String) :=
  (if types.contains .map then [("std::collections", ["BTreeMap"])] else [])
    ++ [("std::sync", ["Arc"])]
    ++ (if types.contains .dateTime then [(crate ++ "::chrono", ["DateTime", "Utc"])] else [])
    ++ [(crate ++ "::runtime",
          ["Args", "FromValue", "InitOutcome", "Registry", "Resource", "Runtime", "Value"]),
        (crate, ["Result"])]

/-- The line that imports the items of a path. -/
def useLine (e : String × List String) : String :=
  match e.2 with
  | [item] => "use " ++ e.1 ++ "::" ++ item ++ ";"
  | items => "use " ++ e.1 ++ "::\x7b" ++ ", ".intercalate items ++ "\x7d;"

/-- The lines that import packs, under their own names. -/
def packLines (file : File) (rs : List Resource) : List String :=
  (packsIn rs).filterMap fun pack =>
    (file.packs.get? pack).map fun p => "use " ++ p.modulePath ++ " as " ++ pack ++ ";"

/-- The bindings import reserved names only. -/
theorem mem_reservedTypes_of_imported {crate : String} {types : List HostType} :
    ∀ e ∈ imported crate types, ∀ item ∈ e.2, item ∈ reservedTypes := by
  unfold imported
  cases types.contains .map <;> cases types.contains .dateTime <;> simp [reservedTypes]

/-- **What is imported,** line by line. -/
theorem beginning_importLines (options : Options) (file : File) (rs : List Resource) :
    beginning "use " (importLines options file rs)
      = (imported options.runtimeCrate (typesIn rs)).map useLine ++ packLines file rs := by
  have hpacks : beginning "use " (packLines file rs) = packLines file rs := by
    refine List.filter_eq_self.2 fun l hl => ?_
    obtain ⟨pack, -, hpack⟩ := List.mem_filterMap.1 hl
    obtain ⟨p, -, rfl⟩ := Option.map_eq_some_iff.1 hpack
    simp only [String.append_assoc]
    exact begins_start rfl rfl (by decide) _
  unfold importLines imported
  dsimp only
  show beginning _ (_ ++ packLines file rs) = _
  rw [beginning_append, hpacks]
  refine congrArg (· ++ packLines file rs) ?_
  cases (typesIn rs).contains .map <;> cases (typesIn rs).contains .dateTime <;>
    simp (disch := first
      | (refine begins_text rfl rfl ?_; decide)
      | (refine begins_start rfl rfl ?_ _; decide))
      [beginning_cons_of, beginning_cons_of_not, beginning_nil, useLine, String.intercalate,
        String.append_assoc] <;> decide

/-! ## §2. Items. -/

namespace Resource

/-- The trait of the providers of a resource. -/
def providerTrait (r : Resource) : String := r.wrapper ++ "Provider"

/-- The function that binds a provider of a resource. -/
def registration (r : Resource) : String := "register_" ++ snakeCase r.id

/-- The lines that open the items of a resource. -/
def items (r : Resource) : List String :=
  ["pub struct " ++ r.wrapper ++ "(pub Arc<Resource>);",
   "pub trait " ++ r.providerTrait ++ " \x7b",
   "pub fn " ++ r.registration ++ "<P: " ++ r.providerTrait ++ " + Send + Sync + 'static>("]

end Resource

/-- The lines that open the items for all resources together. -/
def providerItems (rs : List Resource) : List String :=
  ["pub trait Provider: "
      ++ " + ".intercalate (rs.map Resource.providerTrait ++ ["Send + Sync + 'static"])
      ++ " \x7b\x7d",
   "pub fn init<P: Provider>(registry: &mut Registry, provider: Arc<P>) -> Result<()> \x7b"]

section Items

/-- Of the lines of a wrapper, one declares a public item: the structure. -/
theorem beginning_wrapperLines (r : Resource) : beginning "pub " r.wrapperLines
    = ["pub struct " ++ r.wrapper ++ "(pub Arc<Resource>);"] := by
  have hdocs : ∀ fallback, beginning "pub " (commentLines r.docs fallback) = [] :=
    Resource.beginning_commentLines rfl (by decide) r.docs
  have haccessor : ∀ a : Accessor, beginning "pub " a.lines = [] :=
    Resource.beginning_accessorLines_eq_nil rfl (by decide)
  unfold Resource.wrapperLines
  simp (disch := first
      | (refine begins_text rfl rfl ?_; decide)
      | (refine begins_start rfl rfl ?_ _; decide))
    only [beginning_append, hdocs, beginning_flatMap_eq_nil _ haccessor, beginning_cons_of,
      beginning_cons_of_not, beginning_nil, String.append_assoc]
  rfl

/-- Of the lines of a trait, one declares a public item: the trait. -/
theorem beginning_traitLines_resource (r : Resource) :
    beginning "pub " r.traitLines = ["pub trait " ++ r.providerTrait ++ " \x7b"] := by
  have hmethod : ∀ c : Compute, beginning "pub " (c.traitLines r.wrapper) = [] :=
    Resource.beginning_traitLines_eq_nil rfl (by decide) r.wrapper
  unfold Resource.traitLines Resource.providerTrait
  simp (disch := first
      | (refine begins_text rfl rfl ?_; decide)
      | (refine begins_start rfl rfl ?_ _; decide))
    only [beginning_append, beginning_flatMap_eq_nil _ hmethod, beginning_cons_of,
      beginning_cons_of_not, beginning_nil, String.append_assoc]
  rfl

/-- Of the lines that register a resource, one declares a public item: the
function. -/
theorem beginning_registerLines (r : Resource) : beginning "pub " r.registerLines
    = ["pub fn " ++ r.registration ++ "<P: " ++ r.providerTrait
        ++ " + Send + Sync + 'static>("] := by
  have hbind : ∀ c : Compute, beginning "pub " (c.bindLines r.wrapper) = [] :=
    Resource.beginning_bindLines_eq_nil rfl (by decide) r.wrapper
  unfold Resource.registerLines Resource.registration Resource.providerTrait
  rw [← @String.append_assoc "pub fn " "register_" (snakeCase r.id)]
  simp (disch := first
      | (refine begins_text rfl rfl ?_; decide)
      | (refine begins_start rfl rfl ?_ _; decide))
    only [beginning_append, beginning_flatMap_eq_nil _ hbind, beginning_cons_of,
      beginning_cons_of_not, beginning_nil, String.append_assoc]
  rfl

/-- **What is declared for a resource,** line by line. -/
theorem beginning_lines (r : Resource) : beginning "pub " r.lines = r.items := by
  rw [Resource.lines, beginning_append, beginning_append, beginning_wrapperLines,
    beginning_traitLines_resource, beginning_registerLines]
  rfl

/-- **What is declared for all resources together.** -/
theorem beginning_providerLines (rs : List Resource) :
    beginning "pub " (providerLines rs) = providerItems rs := by
  have hcalls : beginning "pub " (rs.map _) = [] :=
    Resource.beginning_registrations_eq_nil rfl (by decide) rs
  unfold providerLines providerItems
  dsimp only
  rw [beginning_append, beginning_append, hcalls]
  simp (disch := first
      | (refine begins_text rfl rfl ?_; decide)
      | (refine begins_start rfl rfl ?_ _; decide))
    only [beginning_cons_of, beginning_cons_of_not, beginning_nil, String.append_assoc]
  rfl

end Items

/-! ## §3. Names. -/

/-- The id is no new name of a reserved one. -/
def IsPlain (id : String) : Prop := ∀ name ∈ reservedTypes, camelCase id ≠ "Lr" ++ name

/-- The names of a resource's items, next to what the bindings import. -/
structure Resource.WellNamed (file : File) (r : Resource) : Prop where
  /-- No item is called like the trait of all providers. -/
  provider : r.wrapper ≠ "Provider"
  imported : ∀ crate, ∀ e ∈ imported crate (typesIn (ofFile file)), r.wrapper ∉ e.2
  /-- No pack is called like the wrapper, unless its name starts in upper case. -/
  pack : StartsWithLetter r.id → ∀ pack ∈ packsIn (ofFile file),
    (∀ c, pack.toList.head? = some c → c.isUpper = false) → r.wrapper ≠ pack
  identifier : StartsWithLetter r.id → camelCase r.id ≠ "Self" → IsIdentifier r.wrapper

/-- When the names of two resources' items are equal. -/
structure Resource.ToldApart (r r' : Resource) : Prop where
  wrapper : IsPlain r.id → IsPlain r'.id →
    (r.wrapper = r'.wrapper ↔ camelCase r.id = camelCase r'.id)
  letters : camelCase r.id = camelCase r'.id → lettersOf r.id = lettersOf r'.id
  /-- A wrapper is called like a trait only if its id ends like one. -/
  trait : r.wrapper = r'.providerTrait → "Provider".toList <:+ (camelCase r.id).toList
  registration : r.registration = r'.registration
    ↔ List.Forall₂ FoldsLike r.id.toList r'.id.toList

section Names

variable {file parsed : File} {s : Schema} {r r' : Resource}

/-- A resource with a spelled id is well named. -/
theorem Resource.wellNamed (hid : IsSpelled r.id) : r.WellNamed file where
  provider h := wrapperOf_not_mem r.id (by rw [← Resource.wrapper, h]; decide)
  imported _ e he hitem := wrapperOf_not_mem r.id (mem_reservedTypes_of_imported e he _ hitem)
  pack hstarts pack _ hlower heq := by
    obtain ⟨c, cs, hlist, hupper⟩ := upper_of_startsWithLetter hstarts
    have hhead : pack.toList.head? = some c := by
      rw [← heq, Resource.wrapper, hlist]
      rfl
    rw [hlower c hhead] at hupper
    cases hupper
  identifier := isIdentifier_wrapperOf hid

/-- Items of any two resources have one name only where the ids are folded
together. -/
theorem Resource.toldApart (r r' : Resource) : r.ToldApart r' where
  wrapper := wrapperOf_eq_iff
  letters := lettersOf_eq_of_camelCase_eq
  trait := suffix_of_wrapperOf_eq
  registration := by
    rw [Resource.registration, Resource.registration, ← snakeCase_eq_iff, ← String.toList_inj,
      String.toList_append, String.toList_append, List.append_cancel_left_eq, String.toList_inj]

/-- **Which generated names clash.**  The bindings of a file that was parsed import
some items, and declare a wrapper, a trait and a registration for each resource of its
schema.  The wrapper is none of the imported items and is a word, if its id starts like
one.  Items of two resources have one name only if their ids are folded together. -/
theorem generated_names {source name : String} (hparse : File.parse source name = .ok parsed)
    (hfile : file.resources = parsed.resources) (h : file.schema = .ok s) :
    (ofFile file).map Resource.id = s.resources.keys
      ∧ (∀ options, ∃ between, text options file s
        = lines ([options.header, ""] ++ importLines options file (ofFile file) ++ between
          ++ (providerLines (ofFile file) ++ (ofFile file).flatMap Resource.lines)))
      ∧ beginning "pub " (providerLines (ofFile file) ++ (ofFile file).flatMap Resource.lines)
        = providerItems (ofFile file) ++ (ofFile file).flatMap Resource.items
      ∧ (∀ options, beginning "use " (importLines options file (ofFile file))
        = (imported options.runtimeCrate (typesIn (ofFile file))).map useLine
          ++ packLines file (ofFile file))
      ∧ (∀ r ∈ ofFile file, r.WellNamed file)
      ∧ ∀ r ∈ ofFile file, ∀ r' ∈ ofFile file, r.ToldApart r' := by
  refine ⟨ids_ofFile h, fun options => ?_, ?_, fun options => beginning_importLines options file _,
    ?_, fun r _ r' _ => r.toldApart r'⟩
  · refine ⟨[""] ++ if options.embedSchema then schemaLines s else [], ?_⟩
    simp only [text, List.append_assoc]
  · -- the items of the whole file first, then those of one resource after the other
    rw [beginning_append, beginning_providerLines, beginning, List.filter_flatMap]
    exact congrArg _ (List.flatMap_congr fun r _ => beginning_lines r)
  · intro r hr
    obtain ⟨id, hid, rfl⟩ := List.mem_map.1 hr
    obtain ⟨d, hd, rfl⟩ := mem_resourceIds.1 hid
    -- packs come and go with the imports, the declarations are those that were parsed
    rw [hfile] at hd
    exact Resource.wellNamed (spelled_of_parse hparse d hd)

/-- A file with a dotted id and one in camel case that is reserved. -/
def pairSource : String := "os.base \x7b\n  name string\n\x7d\n\nargs \x7b\n\x7d\n"

/-- What is read from `pairSource`. -/
def pairFile : File := (File.parse pairSource "").toOption.getD .empty

/-- Its schema. -/
def pairSchema : Schema := pairFile.schema.toOption.getD ∅

theorem generated_names_of_pair : File.parse pairSource "" = .ok pairFile
    ∧ pairFile.schema = .ok pairSchema
    ∧ (ofFile pairFile).map Resource.id = pairSchema.resources.keys
    ∧ (ofFile pairFile).map (fun r => (r.wrapper, r.registration))
      = [("LrArgs", "register_args"), ("OsBase", "register_os_base")]
    ∧ (∀ r ∈ ofFile pairFile, r.WellNamed pairFile)
    ∧ ∀ r ∈ ofFile pairFile, ∀ r' ∈ ofFile pairFile, r.ToldApart r' := by
  have hparse : File.parse pairSource "" = .ok pairFile := by decide +kernel
  have hschema : pairFile.schema = .ok pairSchema := by decide +kernel
  obtain ⟨hids, -, -, -, hnamed, hapart⟩ := generated_names hparse rfl hschema
  exact ⟨hparse, hschema, hids, by decide +kernel, hnamed, hapart⟩

/-! ## §4. Clashes. -/

/-- It holds of the resources of every file that is read and has a schema. -/
def OfEveryFile (p : List Resource → Prop) : Prop :=
  ∀ read option path file s, readResolved read option path = .ok file → file.schema = .ok s →
    p (ofFile file)

/-- The resources of the file `a.lr`, if it has a schema. -/
def resourcesOn? (files : List (String × String)) : Option (List Resource) :=
  match readResolved (shelf files) defaultPackageOption "a.lr" with
  | .error _ => none
  | .ok file =>
    match file.schema with
    | .error _ => none
    | .ok _ => some (ofFile file)

/-- What the search finds in one of the files does not hold of every file. -/
theorem not_ofEveryFile {p : List Resource → Prop} (files : List (String × String))
    (f : List Resource → Bool) (hfound : (resourcesOn? files).any f = true)
    (hp : ∀ rs, f rs = true → ¬ p rs) : ¬ OfEveryFile p := by
  intro hall
  obtain ⟨rs, hrs, hf⟩ := (Option.any_eq_true _ _).1 hfound
  unfold resourcesOn? at hrs
  split at hrs
  · cases hrs
  · next file hfile =>
    split at hrs
    · cases hrs
    · next s hs =>
      cases hrs
      exact hp _ hf (hall _ _ _ file s hfile hs)

/-- **Ids that fold together clash,** and so do ids that end like a trait, begin with a
dollar sign or fold to the name of a pack. -/
theorem generated_names_clash :
    (¬ OfEveryFile fun rs => (rs.map Resource.wrapper).Nodup)
      ∧ (¬ OfEveryFile fun rs => (rs.map Resource.registration).Nodup)
      ∧ (¬ OfEveryFile fun rs => ∀ r ∈ rs, IsIdentifier r.wrapper)
      ∧ (¬ OfEveryFile fun rs => ∀ r ∈ rs, ∀ r' ∈ rs, r.wrapper ≠ r'.providerTrait)
      ∧ ¬ OfEveryFile fun rs => ∀ r ∈ rs, r.wrapper ∉ packsIn rs := by
  -- each property is broken by a file of its own
  refine ⟨?wrappers, ?registrations, ?words, ?traits, ?packs⟩
  case wrappers =>
    refine not_ofEveryFile [("a.lr", "os.base \x7b\n\x7d\nos_base \x7b\n\x7d")]
      (fun rs => rs.map Resource.wrapper = ["OsBase", "OsBase"]) (by decide +kernel) ?_
    intro rs hrs
    rw [of_decide_eq_true hrs]
    decide
  case registrations =>
    refine not_ofEveryFile [("a.lr", "os.base \x7b\n\x7d\nos_base \x7b\n\x7d")]
      (fun rs => rs.map Resource.registration = ["register_os_base", "register_os_base"])
      (by decide +kernel) ?_
    intro rs hrs
    rw [of_decide_eq_true hrs]
    decide
  case words =>
    refine not_ofEveryFile [("a.lr", "$file \x7b\n\x7d")]
      (fun rs => rs.any fun r => r.wrapper = "$file") (by decide +kernel) ?_
    intro rs hrs hall
    obtain ⟨r, hr, hwrapper⟩ := List.any_eq_true.1 hrs
    obtain ⟨c, cs, hlist, hstart, -, -⟩ := hall r hr
    rw [of_decide_eq_true hwrapper] at hlist
    cases hlist
    exact absurd hstart (by decide)
  case traits =>
    refine not_ofEveryFile [("a.lr", "file \x7b\n\x7d\nfile_provider \x7b\n\x7d")]
      (fun rs => rs.any fun r => rs.any fun r' => r.wrapper = r'.providerTrait)
      (by decide +kernel) ?_
    intro rs hrs hall
    obtain ⟨r, hr, hany⟩ := List.any_eq_true.1 hrs
    obtain ⟨r', hr', heq⟩ := List.any_eq_true.1 hany
    exact hall r hr r' hr' (of_decide_eq_true heq)
  case packs =>
    refine not_ofEveryFile
      [("a.lr", "import \"Os.lr\"\nos \x7b\n  base Os.base\n\x7d"),
        ("Os.lr", "option go_package = \"crate::os\"\nbase \x7b\n\x7d")]
      (fun rs => rs.any fun r => (packsIn rs).contains r.wrapper) (by decide +kernel) ?_
    intro rs hrs hall
    obtain ⟨r, hr, hpack⟩ := List.any_eq_true.1 hrs
    exact hall r hr (List.contains_iff_mem.1 hpack)

end Names

end LazyFields.Bindings
