/-
  LazyFields.Proofs.Schema.TypeNames
  ────────────────────────────────
  **WHICH TYPES OF A SCHEMA SURVIVE THEIR TEXT.**

  A schema stores a type as its text, and a name that was scanned, declared or
  imported ends up in that text.  Two kinds of names get into a schema and are
  not read back from it:

    · a name that ends in a dot.  The scanner lets a dot before a dollar sign
      into a name and stops there, so `a.$x` is the name `a.` and then `$x`
    · the name of a primitive, which a resource of a pack may have: `core.int`
      is the resource `int`, and the text `int` is the integers

  These are all (`types_read_back_iff`): any other type is read back as itself,
  and a schema without such names is reloaded from its JSON as it was.
-/
import LazyFields.Imports
import LazyFields.Proofs.Schema.RoundTrip
import LazyFields.Proofs.Schema.Valid
import LazyFields.Proofs.Source.LongestNames
import LazyFields.Proofs.Source.Named

namespace LazyFields

open LazyFields.Source LazyFields.Text

/-! ## §1. Scanned names as names of types. -/

section Spelled

/-- A segment of a name, as it is scanned, is a segment of a type's name. -/
theorem isSegment_of_isNameSegment {s : List Char} (h : isNameSegment s = true) :
    FieldType.isSegment s = true := by
  cases s with
  | nil => cases h
  | cons c cs =>
    rw [isNameSegment, Bool.and_eq_true] at h
    have hchar : ∀ d, isNameStart d = true ∨ isNameChar d = true → FieldType.isSegmentChar d = true := by
      intro d hd
      unfold isNameStart isNameChar at hd
      unfold FieldType.isSegmentChar
      unfold Char.isAlphanum at hd ⊢
      grind
    rw [FieldType.isSegment, List.all_cons, Bool.and_eq_true, Bool.and_eq_true]
    refine ⟨h.1, hchar c (.inl h.1), List.all_eq_true.2 fun d hd => ?_⟩
    exact hchar d (.inr (List.all_eq_true.1 h.2 d hd))

/-- **A scanned name can be that of a resource** unless it ends in a dot. -/
theorem isResourceName_iff {name : String} (h : IsSpelled name) :
    FieldType.isResourceName name.toList = true ↔ name.toList.getLast? ≠ some '.' := by
  obtain ⟨c, cs, hname, hc⟩ := h
  unfold FieldType.isResourceName
  constructor
  · intro hsegments hlast
    obtain ⟨s, hs⟩ := List.getLast?_eq_some_iff.1 hlast
    rw [hs, segments_append_singleton, List.all_append] at hsegments
    simp [FieldType.isSegment] at hsegments
  · intro hlast
    have hdotted : IsDottedName name.toList := by
      rw [hname] at hlast ⊢
      refine ((longest_of_nameTail hc cs).2 ?_).dotted
      rintro ⟨stem, after, hstem, -, -⟩
      exact hlast (by rw [hstem, List.getLast?_concat])
    exact List.all_eq_true.2 fun s hs => isSegment_of_isNameSegment (List.all_eq_true.1 hdotted s hs)

end Spelled

/-! ## §2. The names in the types of a file. -/

section Names

variable {file : File}

/-- Declared resources and those of packs have scanned names. -/
structure Source.File.Spelled (file : File) : Prop where
  declared : ∀ d ∈ file.resources, IsSpelled d.id
  packed : ∀ pack p, file.packs.get? pack = some p →
    ∀ name, p.resources.contains name = true → IsSpelled name

/-- What a name means in a spelled file is a kind or a primitive, and the kinds in
it are spelled. -/
theorem spelled_of_nameMeans (h : file.Spelled) {name : String} {t : FieldType}
    (hmeans : NameMeans file file.FromPack name t) :
    (t.isResource || t.isPrimitive) = true ∧ ∀ r ∈ t.resources, IsSpelled r := by
  cases hmeans with
  | primitive hprim =>
    unfold FieldType.primitive? at hprim
    grind [FieldType.isResource, FieldType.isPrimitive, FieldType.resources]
  | declared _ hdeclared =>
    obtain ⟨d, hd, rfl⟩ := hdeclared
    exact ⟨rfl, List.forall_mem_singleton.2 (h.declared d hd)⟩
  | packed _ _ hpacked =>
    obtain ⟨pack, p, -, -, hp, hrest⟩ := hpacked
    exact ⟨rfl, List.forall_mem_singleton.2 (h.packed pack p hp _ hrest)⟩

/-- The name can be told from those of primitives and is no torn one. -/
def IsReadable (name : String) : Prop :=
  name.toList.getLast? ≠ some '.' ∧ FieldType.primitive? name = none

/-- A spelled name is a type's name if and only if it can be read as one. -/
theorem isTypeName_iff {name : String} (h : IsSpelled name) :
    FieldType.IsTypeName name ↔ IsReadable name := and_congr_left' (isResourceName_iff h)

/-- What a name means is legible if and only if each kind it mentions can be read
back. -/
theorem legible_iff_of_nameMeans (h : file.Spelled) {name : String} {t : FieldType}
    (hmeans : NameMeans file file.FromPack name t) :
    t.Legible ↔ ∀ r ∈ t.resources, IsReadable r := by
  obtain ⟨hplain, hspelled⟩ := spelled_of_nameMeans h hmeans
  cases t with
  | resource r =>
    rw [FieldType.resources, List.forall_mem_singleton] at hspelled ⊢
    exact isTypeName_iff hspelled
  | array => simp [FieldType.isResource, FieldType.isPrimitive] at hplain
  | map => simp [FieldType.isResource, FieldType.isPrimitive] at hplain
  | _ => simp [FieldType.Legible, FieldType.resources]

/-- A type of a file is legible when the names in it are readable. -/
theorem legible_iff_of_typeMeans (h : file.Spelled) {e : TypeExpr} {t : FieldType}
    (hmeans : TypeMeans file file.FromPack e t) :
    t.Legible ↔ ∀ r ∈ t.resources, IsReadable r := by
  induction hmeans with
  | named hname => exact legible_iff_of_nameMeans h hname
  | list _ ih => exact ih
  | map hkey _ ih =>
    rw [FieldType.Legible, FieldType.resources, List.forall_mem_append, ← ih,
      ← legible_iff_of_nameMeans h hkey]
    exact and_iff_right (spelled_of_nameMeans h hkey).1

end Names

/-! ## §3. Where the names come from. -/

section Resolved

variable {read : Reader} {option : String}

/-- The kinds a file declares have spelled names. -/
theorem spelled_of_parse {source name : String} {file : File}
    (h : File.parse source name = .ok file) : ∀ d ∈ file.resources, IsSpelled d.id :=
  fun d hd => (named_of_parse h d hd).1

/-- The kinds of a pack have spelled names. -/
theorem spelled_of_packOf {base path : String} {file : File} {pack : Pack}
    (hfile : readImport read base path = .ok file) (hpack : packOf option path file = .ok pack) :
    ∀ name, pack.resources.contains name = true → IsSpelled name := by
  intro name hname
  unfold packOf at hpack
  split at hpack
  · simp at hpack
  · cases hpack
    rw [Table.contains_ofNames] at hname
    obtain ⟨d, hd, rfl⟩ := List.mem_map.1 hname
    -- the imported file is one that was parsed
    unfold readImport at hfile
    dsimp only at hfile
    split at hfile
    · simp at hfile
    · split at hfile
      · simp at hfile
      · next hparse =>
        cases hfile
        exact spelled_of_parse hparse d hd

/-- The packs that a file is given have scanned names only. -/
theorem spelled_of_addPacks {base : String} : ∀ {paths : List String} {packs out : Table Pack},
    addPacks read option base paths packs = .ok out →
    (∀ pack p, packs.get? pack = some p → ∀ name, p.resources.contains name = true →
      IsSpelled name) →
    ∀ pack p, out.get? pack = some p → ∀ name, p.resources.contains name = true →
      IsSpelled name := by
  intro paths
  induction paths with
  | nil =>
    intro packs out h hpacks
    cases h
    exact hpacks
  | cons path paths ih =>
    intro packs out h hpacks
    rw [addPacks] at h
    split at h
    · simp at h
    · next file hfile =>
      split at h
      · simp at h
      · next new hnew =>
        refine ih h ?_
        -- the names of a new pack were scanned in its file, the others were there before
        intro pack p hp name hname
        rw [Table.get?_insert] at hp
        split at hp
        · cases hp
          exact spelled_of_packOf hfile hnew name hname
        · exact hpacks pack p hp name hname

/-- **A resolved file has scanned names only.** -/
theorem spelled_of_readResolved {path : String} {file : File}
    (h : readResolved read option path = .ok file) : file.Spelled := by
  unfold readResolved at h
  split at h
  · simp at h
  · split at h
    · simp at h
    · next parsed hparse =>
      unfold withImports at h
      split at h
      · simp at h
      · next packs hpacks =>
        cases h
        refine ⟨fun d hd => spelled_of_parse hparse d hd, spelled_of_addPacks hpacks ?_⟩
        intro pack p hp
        simp [packs_of_parse hparse] at hp

end Resolved

/-! ## §4. The types of a schema. -/

/-- The type occurs in the schema: as that of a field, of a constructor argument
or of list elements. -/
inductive Schema.HasType (s : Schema) : FieldType → Prop
  | field {id info name spec} : s.resources.get? id = some info →
      info.fields.get? name = some spec → HasType s spec.type
  | parameter {id info params p} : s.resources.get? id = some info →
      info.init = some params → p ∈ params → HasType s p.type
  | element {id info t} : s.resources.get? id = some info → info.listType = some t → HasType s t

section Types

variable {file : File} {s : Schema}

/-- A schema is legible if and only if each type in it is. -/
theorem Schema.legible_iff : s.Legible ↔ ∀ t, s.HasType t → t.Legible := by
  constructor
  · intro h t ht
    cases ht with
    | field hinfo hspec => exact (h _ _ hinfo).fields _ _ hspec
    | parameter hinfo hparams hp => exact (h _ _ hinfo).args _ hparams _ hp
    | element hinfo ht => exact (h _ _ hinfo).element _ ht
  · intro h id info hinfo
    constructor
    · intro name spec hspec
      exact h _ (.field hinfo hspec)
    · intro params hparams p hp
      exact h _ (.parameter hinfo hparams hp)
    · intro t ht
      exact h _ (.element hinfo ht)

/-- Every type of a schema is what some type expression stands for in its file. -/
theorem typeMeans_of_hasType (h : file.schema = .ok s) {t : FieldType} (ht : s.HasType t) :
    ∃ e, TypeMeans file file.FromPack e t := by
  have hm := merged_of_schema h
  cases ht with
  | field hinfo hspec =>
    obtain ⟨d, _, f, _, _, hbuild⟩ := ((hm.content hinfo).2.field _ _).1 hspec
    obtain ⟨⟨e, _, he⟩, _⟩ := buildField_eq_ok hbuild
    exact ⟨e, typeOf_eq_ok_iff.1 he⟩
  | parameter hinfo hparams hp =>
    obtain ⟨d, _, args, _, hof⟩ := (hm.content hinfo).2.parameters _ hparams
    obtain ⟨a, _, t, ht, rfl⟩ := (hof _).1 hp
    exact ⟨a.type, typeOf_eq_ok_iff.1 ht⟩
  | element hinfo ht =>
    obtain ⟨d, _, head, _, hmeans⟩ := (hm.content hinfo).2.element _ ht
    exact ⟨.named head.element, .named (resolveName_eq_ok_iff.1 hmeans)⟩

end Types

/-! ## §5. Whatever is read from a text is legible. -/

namespace Json.Tree

/-- A type that has been read is legible. -/
theorem legible_of_type? {s : Tree} {t : FieldType} (h : s.type? = some t) : t.Legible := by
  unfold type? at h
  cases hstring : s.string? with
  | none => simp [hstring] at h
  | some text =>
    cases htype : FieldType.ofText text with
    | error part => simp [hstring, htype] at h
    | ok t' =>
      simp only [hstring, htype, Option.bind_eq_bind, Option.bind_some, Option.some.injEq] at h
      subst h
      exact FieldType.legible_of_ofChars htype

/-- What `mapM` answers comes from the elements of the list. -/
theorem mem_of_mapM {α β : Type} {f : α → Option β} : ∀ {xs : List α} {ys : List β},
    xs.mapM f = some ys → ∀ y ∈ ys, ∃ x ∈ xs, f x = some y := by
  intro xs
  induction xs with
  | nil =>
    intro ys h y hy
    obtain rfl : [] = ys := by simpa using h
    simp at hy
  | cons x xs ih =>
    intro ys h y hy
    rw [List.mapM_cons] at h
    cases hx : f x with
    | none => simp [hx] at h
    | some y' =>
      cases hxs : xs.mapM f with
      | none => simp [hx, hxs] at h
      | some ys' =>
        obtain rfl : y' :: ys' = ys := by simpa [hx, hxs] using h
        rcases List.mem_cons.1 hy with rfl | hy
        · exact ⟨x, List.mem_cons_self, hx⟩
        · obtain ⟨x', hx', hfx'⟩ := ih hxs y hy
          exact ⟨x', List.mem_cons_of_mem _ hx', hfx'⟩

/-- What is read as a list comes from trees, element by element. -/
theorem mem_of_list? {α : Type} {f : Tree → Option α} {s : Tree} {xs : List α}
    (h : s.list? f = some xs) : ∀ x ∈ xs, ∃ t, f t = some x := by
  cases s with
  | array items =>
    intro x hx
    obtain ⟨t, -, ht⟩ := mem_of_mapM h x hx
    exact ⟨t, ht⟩
  | _ => simp [list?] at h

/-- What is read from an optional part comes from a tree. -/
theorem some_of_optional? {α : Type} {f : Tree → Option α} {part : Option Tree} {x : α}
    (h : optional? f part = some (some x)) : ∃ t, f t = some x := by
  unfold optional? at h
  split at h
  · simp at h
  · simp at h
  · next t _ =>
    obtain ⟨x', hx', heq⟩ := Option.map_eq_some_iff.1 h
    cases heq
    exact ⟨t, hx'⟩

/-- What is read as an entry of a table comes from a tree. -/
theorem get?_of_table? {α : Type} {f : Tree → Option α} {s : Tree} {entries : Table α}
    (h : s.table? f = some entries) {k : String} {v : α} (hv : entries.get? k = some v) :
    ∃ t, f t = some v := by
  cases s with
  | object ms =>
    obtain ⟨es, hes, rfl⟩ := Option.map_eq_some_iff.1 h
    have hmem : (k, v) ∈ es := Entries.mem_of_mem_sort (Table.get?_eq_some_iff_mem.1 hv)
    obtain ⟨m, -, hm⟩ := mem_of_mapM hes (k, v) hmem
    refine ⟨m.2, ?_⟩
    cases hkey : unitsText? m.1 with
    | none => simp [hkey] at hm
    | some key =>
      cases hvalue : f m.2 with
      | none => simp [hkey, hvalue] at hm
      | some value =>
        simp only [hkey, hvalue, Option.bind_eq_bind, Option.bind_some, Option.pure_def,
          Option.some.injEq, Prod.mk.injEq] at hm
        rw [hm.2]
  | _ => simp [table?] at h

end Json.Tree

open Json (Tree)

/-- A step of a reader, and the steps after it. -/
theorem of_bind_eq_some {α β : Type} {x : Option α} {f : α → Option β} {b : β}
    (h : (x >>= f) = some b) : ∃ a, x = some a ∧ f a = some b := Option.bind_eq_some_iff.1 h

/-- A parameter that has been read has a legible type. -/
theorem Parameter.legible_of_ofTree? {t : Tree} {p : Parameter}
    (h : Parameter.ofTree? t = some p) : p.type.Legible := by
  obtain ⟨parts, -, h⟩ := of_bind_eq_some h
  split at h
  · -- the name is read before the type
    iterate 3 obtain ⟨_, -, h⟩ := of_bind_eq_some h
    obtain ⟨type, htype, h⟩ := of_bind_eq_some h
    obtain ⟨_, -, h⟩ := of_bind_eq_some h
    cases h
    exact Tree.legible_of_type? htype
  · simp at h

/-- A field that has been read has a legible type. -/
theorem FieldSpec.legible_of_ofTree? {t : Tree} {f : FieldSpec}
    (h : FieldSpec.ofTree? t = some f) : f.type.Legible := by
  obtain ⟨parts, -, h⟩ := of_bind_eq_some h
  split at h
  · iterate 3 obtain ⟨_, -, h⟩ := of_bind_eq_some h
    obtain ⟨type, htype, h⟩ := of_bind_eq_some h
    iterate 5 obtain ⟨_, -, h⟩ := of_bind_eq_some h
    cases h
    exact Tree.legible_of_type? htype
  · simp at h

/-- The arguments of `init` that have been read have legible types. -/
theorem legible_of_initOfTree? {t : Tree} {params : List Parameter}
    (h : initOfTree? t = some params) : ∀ p ∈ params, p.type.Legible := by
  obtain ⟨parts, -, h⟩ := of_bind_eq_some h
  split at h
  · obtain ⟨args, -, hargs⟩ := of_bind_eq_some h
    intro p hp
    obtain ⟨t, ht⟩ := Tree.mem_of_list? hargs p hp
    exact Parameter.legible_of_ofTree? ht
  · simp at h

/-- A kind that has been read is legible. -/
theorem ResourceSpec.legible_of_ofTree? {t : Tree} {r : ResourceSpec}
    (h : ResourceSpec.ofTree? t = some r) : r.Legible := by
  obtain ⟨parts, -, h⟩ := of_bind_eq_some h
  split at h
  · -- of all parts, only the constructor, the fields and the elements have types
    iterate 6 obtain ⟨_, -, h⟩ := of_bind_eq_some h
    obtain ⟨init, hinit, h⟩ := of_bind_eq_some h
    iterate 4 obtain ⟨_, -, h⟩ := of_bind_eq_some h
    obtain ⟨fields, hfields, h⟩ := of_bind_eq_some h
    obtain ⟨listType, hlist, h⟩ := of_bind_eq_some h
    cases h
    constructor
    · intro name f hf
      obtain ⟨t, ht⟩ := Tree.get?_of_table? hfields hf
      exact FieldSpec.legible_of_ofTree? ht
    · intro params hparams
      obtain rfl : init = some params := hparams
      obtain ⟨t, ht⟩ := Tree.some_of_optional? hinit
      exact legible_of_initOfTree? ht
    · intro t ht
      obtain rfl : listType = some t := ht
      obtain ⟨t', ht'⟩ := Tree.some_of_optional? hlist
      exact Tree.legible_of_type? ht'
  · simp at h

/-- A schema that has been read is legible: its types can be read back. -/
theorem Schema.legible_of_ofTree? {t : Tree} {s : Schema} (h : Schema.ofTree? t = some s) :
    s.Legible := by
  obtain ⟨parts, -, h⟩ := of_bind_eq_some h
  split at h
  · obtain ⟨_, -, h⟩ := of_bind_eq_some h
    obtain ⟨resources, hresources, h⟩ := of_bind_eq_some h
    cases h
    intro id r hr
    obtain ⟨t, ht⟩ := Tree.get?_of_table? hresources hr
    exact ResourceSpec.legible_of_ofTree? ht
  · simp at h

/-- **A schema that was read has legible types only.** -/
theorem Schema.legible_of_ofText {text : String} {s : Schema} (h : Schema.ofText text = .ok s) :
    s.Legible := by
  unfold Schema.ofText at h
  split at h
  · next read hread =>
    cases h
    obtain ⟨t, -, ht⟩ := Option.bind_eq_some_iff.1 hread
    exact Schema.legible_of_ofTree? ht
  · simp at h

/-- **A schema is read back from its text exactly when its types are legible.** -/
theorem Schema.ofText_text_iff {s : Schema} : Schema.ofText s.text = .ok s ↔ s.Legible := by
  constructor
  · exact legible_of_ofText
  · intro h
    rw [Schema.ofText, Schema.text, Json.read?_pretty (plain_schema s), Option.bind_some,
      Schema.ofTree?_toJson h]

/-! ## §6. Which types are read back. -/

/-- **The types of a schema are read back unless they name what is unreadable,**
a torn name or one that a primitive has, and the schema is read back from its
text when all its types are. -/
theorem types_read_back_iff {read : Reader} {option path : String} {file : File} {s : Schema}
    (hfile : readResolved read option path = .ok file) (hs : file.schema = .ok s) :
    (∀ t, s.HasType t →
        (FieldType.ofText t.text = .ok t ↔ ∀ name ∈ t.resources, IsReadable name))
      ∧ (Schema.ofText s.text = .ok s ↔ ∀ t, s.HasType t → FieldType.ofText t.text = .ok t) := by
  constructor
  · intro t ht
    obtain ⟨e, hmeans⟩ := typeMeans_of_hasType hs ht
    rw [FieldType.ofText_text_iff]
    exact legible_iff_of_typeMeans (spelled_of_readResolved hfile) hmeans
  · rw [Schema.ofText_text_iff, Schema.legible_iff]
    simp only [FieldType.ofText_text_iff]

/-- The reader of the given files. -/
def shelf (files : List (String × String)) : Reader := fun path =>
  match files.find? fun e => e.1 = path with
  | some e => .ok e.2
  | none => .error "not found"

/-- A file with types from a pack, one of which is called like a primitive. -/
def packedShelf : Reader := shelf
  [("l/os.lr", "import \"core.lr\"\n\nfile \x7b\n  owners []core.user\n  size() core.int\n\x7d\n"),
   ("l/core.lr", "option go_package = \"x\"\n\nuser \x7b\n\x7d\n\nint \x7b\n\x7d\n")]

/-- What is read from `packedShelf`. -/
def packedFile : File where
  imports := []
  options := ∅
  resources :=
    [{ comments := [], isPrivate := false, isExtension := false, id := "file", defaults := none,
       list := none,
       body := [⟨[], .field ⟨"owners", none, some (.list (.named "core.user"))⟩, ⟨4, 3⟩⟩,
         ⟨[], .field ⟨"size", some [], some (.named "core.int")⟩, ⟨5, 3⟩⟩],
       pos := ⟨3, 1⟩ }]
  packs := Table.ofList [("core", ⟨Table.ofNames ["int", "user"], "x"⟩)]

/-- Its schema. -/
def packedSchema : Schema where
  resources := Table.ofList
    [("file",
      { id := "file", name := "file", title := "", desc := "", init := none, isPrivate := false,
        isExtension := false, defaults := "",
        fields := Table.ofList
          [("owners", ⟨"owners", .array (.resource "user"), true, [], "", "", false⟩),
           ("size", ⟨"size", .resource "int", false, [], "", "", false⟩)],
        listType := none })]

theorem types_read_back_packed :
    readResolved packedShelf defaultPackageOption "l/os.lr" = .ok packedFile
      ∧ packedFile.schema = .ok packedSchema
      ∧ (∀ t, packedSchema.HasType t →
        (FieldType.ofText t.text = .ok t ↔ ∀ name ∈ t.resources, IsReadable name))
      ∧ (Schema.ofText packedSchema.text = .ok packedSchema
        ↔ ∀ t, packedSchema.HasType t → FieldType.ofText t.text = .ok t) := by
  have hfile : readResolved packedShelf defaultPackageOption "l/os.lr" = .ok packedFile := by
    decide +kernel
  have hschema : packedFile.schema = .ok packedSchema := by decide +kernel
  exact ⟨hfile, hschema, types_read_back_iff hfile hschema⟩

/-- A file with a dollar sign after a dot. -/
def tornShelf : Reader := shelf [("os.lr", "a.$x \x7b\n  f a.$y string\n\x7d")]

/-- What is read from `tornShelf`: each name with the dollar sign is torn in two. -/
def tornFile : File where
  imports := []
  options := ∅
  resources :=
    [{ comments := [], isPrivate := false, isExtension := false, id := "a.", defaults := none,
       list := none, body := [], pos := ⟨1, 1⟩ },
     { comments := [], isPrivate := false, isExtension := false, id := "$x", defaults := none,
       list := none,
       body := [⟨[], .field ⟨"f", none, some (.named "a.")⟩, ⟨2, 3⟩⟩,
         ⟨[], .field ⟨"$y", none, some (.named "string")⟩, ⟨2, 7⟩⟩],
       pos := ⟨1, 3⟩ }]
  packs := ∅

/-- Its schema. -/
def tornSchema : Schema where
  resources := Table.ofList
    [("$x",
      { id := "$x", name := "$x", title := "", desc := "", init := none, isPrivate := false,
        isExtension := false, defaults := "",
        fields := Table.ofList
          [("$y", ⟨"$y", .string, true, [], "", "", false⟩),
           ("f", ⟨"f", .resource "a.", true, [], "", "", false⟩)],
        listType := none }),
     ("a.",
      { id := "a.", name := "a.", title := "", desc := "", init := none, isPrivate := false,
        isExtension := false, defaults := "", fields := ∅, listType := none })]

/-- A schema can have a type whose text is not read as it. -/
theorem torn_type_not_read_back :
    ¬ ∀ (read : Reader) (option path : String) (file : File) (s : Schema),
      readResolved read option path = .ok file → file.schema = .ok s →
      ∀ t, s.HasType t → FieldType.ofText t.text = .ok t := by
  intro h
  have hfile : readResolved tornShelf defaultPackageOption "os.lr" = .ok tornFile := by
    decide +kernel
  have hschema : tornFile.schema = .ok tornSchema := by decide +kernel
  have htype : tornSchema.HasType (.resource "a.") :=
    @Schema.HasType.field tornSchema "$x" _ "f" ⟨"f", .resource "a.", true, [], "", "", false⟩
      rfl rfl
  exact absurd (h _ _ _ _ _ hfile hschema _ htype) (by decide +kernel)

end LazyFields
