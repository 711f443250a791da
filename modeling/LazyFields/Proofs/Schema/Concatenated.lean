/-
  LazyFields.Proofs.Schema.Concatenated
  ────────────────────────────────
  **FILES COMPILED TOGETHER OR APART.**

  The declarations of a resource are joined while a file is compiled, and
  resources are merged when schemas are.  The two are written differently and
  disagree on the documentation and the privacy of a resource, for which
  joining asks the base declaration.  On everything else, its `shape`, they
  agree: of an accepted file,

      shape of the schema = shape of (d₁ merged with d₂ merged with …)

  where each `dᵢ` is the schema of one declaration alone (`shape_of_schema`).
  Merging is associative, so the declarations may be cut into two files
  anywhere.  What is left is that a name means in a part of the file what it
  means in the whole.

    · `shape_joinDeclaration` — joining is merging, but for what the base says
    · `NameMeans.more` — more declarations, and a name means what it meant
    · `merge_schema_of_append` — merging two schemas is compiling both files
-/
import LazyFields.Proofs.Catalog.Loops
import LazyFields.Proofs.Schema.Merging
import LazyFields.Proofs.Schema.Reordered

namespace LazyFields

open LazyFields.Source
open Schema (mergeAll)

/-! ## §1. What the base declaration does not say. -/

namespace ResourceSpec

/-- The resource without its documentation and its privacy. -/
def shape (info : ResourceSpec) : ResourceSpec :=
  { info with title := "", desc := "", isPrivate := false }

/-- The shape of a merged resource is the merged shape. -/
theorem shape_merge (a b : ResourceSpec) : (a.merge b).shape = a.shape.merge b.shape := by
  simp only [shape, merge, firstText_self, Bool.or_self]

end ResourceSpec

namespace Schema

/-- The schema without the documentation and the privacy of its resources. -/
def shape (s : Schema) : Schema := ⟨s.resources.map ResourceSpec.shape⟩

/-- A schema is known by its resources. -/
theorem ext_resource? {s t : Schema} (h : ∀ id, s.resource? id = t.resource? id) : s = t :=
  congrArg Schema.mk (Table.ext_get? h)

/-- The shape of a schema has the shapes of its resources. -/
theorem resource?_shape (s : Schema) (id : String) :
    s.shape.resource? id = (s.resource? id).map ResourceSpec.shape := Table.get?_map _ _ _

/-- The shape of a merged schema is the merged shape. -/
theorem shape_merge (s t : Schema) : (s.merge t).shape = s.shape.merge t.shape := by
  apply ext_resource?
  intro id
  rw [resource?_shape, resource?_merge, resource?_merge, resource?_shape, resource?_shape]
  cases s.resource? id with
  | none => cases t.resource? id <;> rfl
  | some ours =>
    cases t.resource? id with
    | none => rfl
    | some theirs => exact congrArg some (ResourceSpec.shape_merge ours theirs)

/-- Merging is associative. -/
theorem merge_assoc (s t u : Schema) : (s.merge t).merge u = s.merge (t.merge u) :=
  congrArg Schema.mk (Table.mergeWith_assoc ResourceSpec.merge_assoc _ _ _)

/-- Merging one after the other is merging all, and that once. -/
theorem foldl_merge (s : Schema) (schemas : List Schema) :
    schemas.foldl merge s = s.merge (mergeAll schemas) := by
  unfold mergeAll
  induction schemas generalizing s with
  | nil => rfl
  | cons t schemas ih =>
    rw [List.foldl_cons, List.foldl_cons, ih, ih (Schema.merge ∅ t), empty_merge, merge_assoc]

/-- The first schema is merged with all others. -/
theorem mergeAll_cons (s : Schema) (schemas : List Schema) :
    mergeAll (s :: schemas) = s.merge (mergeAll schemas) := by
  show schemas.foldl merge (Schema.merge ∅ s) = _
  rw [foldl_merge, empty_merge]

/-- Merging two lists is merging what each gives. -/
theorem mergeAll_append (ss ts : List Schema) :
    mergeAll (ss ++ ts) = (mergeAll ss).merge (mergeAll ts) := by
  show (ss ++ ts).foldl merge ∅ = _
  rw [List.foldl_append, foldl_merge]
  rfl

end Schema

/-! ## §2. Joining is merging. -/

section Joining

variable {file : File} {d : Declaration} {existing info joined part : ResourceSpec}

/-- Fields that can be joined are joined as tables are merged. -/
theorem joinFields_eq_mergeWith {id : String} {more fields out : Table FieldSpec}
    (h : joinFields id more.entries fields = .ok out) :
    out = fields.mergeWith (fun ours _ => ours) more := by
  have hfresh := (joinFields_isOk_iff more.sorted).1 ⟨out, h⟩
  refine Table.ext_get? fun name => Option.ext fun spec => ?_
  rw [get?_joinFields h, ← Table.get?_eq_some_iff_mem, Table.get?_mergeWith]
  cases hmore : more.get? name with
  | none => simp
  | some theirs =>
    -- what is added was not there
    have hnone : fields.get? name = none := by
      have hnot := hfresh (name, theirs) (Table.get?_eq_some_iff_mem.1 hmore)
      simpa [Table.contains] using hnot
    simp [hnone]

/-- **Joining a declaration is merging its resource**, but for what a base
declaration says. -/
theorem shape_joinDeclaration (h : joinDeclaration existing info = .ok joined) :
    joined.shape = (existing.merge info).shape := by
  obtain ⟨fields, hfields, -, -, rfl⟩ := joinDeclaration_eq_ok h
  have hmerged := joinFields_eq_mergeWith hfields
  simp only [ResourceSpec.shape, ResourceSpec.merge, firstText, hmerged]

/-- The schema of one declaration alone; empty if it cannot be built. -/
def schemaOfDeclaration (file : File) (d : Declaration) : Schema :=
  match buildDeclaration file d with
  | .error _ => ∅
  | .ok info => ⟨(∅ : Table ResourceSpec).insert d.id info⟩

/-- The schema of a declaration has that resource only. -/
theorem resource?_schemaOfDeclaration (h : buildDeclaration file d = .ok part) (id : String) :
    (schemaOfDeclaration file d).resource? id = if d.id = id then some part else none := by
  unfold schemaOfDeclaration Schema.resource?
  rw [h]
  exact Table.get?_insert _ _ _ _

/-- A resource that is stored has been merged, if its shape is that of the
resource before it, merged with a part. -/
theorem shape_insert {resources : Table ResourceSpec}
    (hpart : buildDeclaration file d = .ok part)
    (hinfo : some info.shape = (Option.merge ResourceSpec.merge (resources.get? d.id)
      (some part)).map ResourceSpec.shape) :
    (Schema.mk (resources.insert d.id info)).shape
      = ((Schema.mk resources).merge (schemaOfDeclaration file d)).shape := by
  apply Schema.ext_resource?
  intro id
  rw [Schema.resource?_shape, Schema.resource?_shape, Schema.resource?_merge,
    resource?_schemaOfDeclaration hpart]
  show ((resources.insert d.id info).get? id).map _ = (Option.merge _ (resources.get? id) _).map _
  rw [Table.get?_insert]
  by_cases heq : d.id = id
  · subst heq
    rw [if_pos rfl, if_pos rfl]
    exact hinfo
  · rw [if_neg heq, if_neg heq, Option.merge_none_right]

/-- Adding a declaration merges its schema, apart from texts. -/
theorem shape_addDeclaration {resources out : Table ResourceSpec}
    (h : addDeclaration file resources d = .ok out) :
    (Schema.mk out).shape
      = ((Schema.mk resources).merge (schemaOfDeclaration file d)).shape := by
  unfold addDeclaration at h
  split at h
  · cases h
  · next part hpart =>
    split at h
    · next hnone =>
      cases h
      apply shape_insert hpart
      rw [hnone]
      rfl
    · next existing hexisting =>
      split at h
      · cases h
      · next joined hjoined =>
        cases h
        apply shape_insert hpart
        rw [hexisting, shape_joinDeclaration hjoined]
        rfl

/-- Adding all declarations merges all their schemas, apart from texts. -/
theorem shape_addDeclarations {ds : List Declaration} {resources out : Table ResourceSpec}
    (h : addDeclarations file ds resources = .ok out) :
    (Schema.mk out).shape
      = ((Schema.mk resources).merge (mergeAll (ds.map (schemaOfDeclaration file)))).shape := by
  induction ds generalizing resources with
  | nil =>
    cases h
    rfl
  | cons d ds ih =>
    unfold addDeclarations at h
    split at h
    · cases h
    · next mid hmid =>
      rw [ih h, Schema.shape_merge, shape_addDeclaration hmid, ← Schema.shape_merge,
        Schema.merge_assoc, List.map_cons, Schema.mergeAll_cons]

/-- **A schema is what its declarations are, merged one after the other**, but for
what base declarations say. -/
theorem shape_of_schema {s : Schema} (h : file.schema = .ok s) :
    s.shape = (mergeAll (file.resources.map (schemaOfDeclaration file))).shape := by
  rw [← Schema.empty_merge (mergeAll _)]
  exact shape_addDeclarations (parts_of_schema h).1

end Joining

/-! ## §3. A name in a part of a file. -/

section Parts

variable {file whole : File}

/-- The file has no packs, and another file declares all that it declares. -/
structure Source.File.PartOf (file whole : File) : Prop where
  noPacks : file.packs = ∅
  declares : ∀ id, file.Declares id → whole.Declares id

/-- **With more declarations a name means what it meant.** -/
theorem NameMeans.more (h : file.PartOf whole) {name : String} {t : FieldType}
    (hname : NameMeans file file.FromPack name t) : NameMeans whole whole.FromPack name t := by
  cases hname with
  | primitive hprim => exact .primitive hprim
  | declared hprim hdeclared => exact .declared hprim (h.declares name hdeclared)
  | packed _ _ hpack =>
    -- there is no pack that the name could be from
    obtain ⟨pack, p, -, -, hget, -⟩ := hpack
    rw [h.noPacks] at hget
    cases hget

/-- A name that a part of a file resolves means the same in the whole. -/
theorem resolveName_more (h : file.PartOf whole) {name : String} {t : FieldType}
    (hname : resolveName file name = .ok t) : resolveName whole name = .ok t :=
  resolveName_eq_ok_iff.2 ((resolveName_eq_ok_iff.1 hname).more h)

/-- So does a type. -/
theorem typeOf_more (h : file.PartOf whole) {e : TypeExpr} {t : FieldType}
    (htype : typeOf file e = .ok t) : typeOf whole e = .ok t := by
  rw [typeOf_eq_ok_iff] at htype ⊢
  induction htype with
  | named hname => exact .named (hname.more h)
  | list _ ih => exact .list ih
  | map hkey _ ih => exact .map (hkey.more h) ih

/-- So a field is built alike. -/
theorem buildField_more (h : file.PartOf whole) {id : String} {f : DeclaredField}
    {spec : FieldSpec} (hbuild : buildField file id f = .ok spec) :
    buildField whole id f = .ok spec := by
  unfold buildField at hbuild ⊢
  split at hbuild
  · cases hbuild
  · next e he =>
    split at hbuild
    · cases hbuild
    · next t ht =>
      dsimp only
      rw [typeOf_more h ht]
      exact hbuild

/-- So are the fields of a declaration. -/
theorem buildFields_more (h : file.PartOf whole) {id : String} {fs : List DeclaredField}
    {fields out : Table FieldSpec} (hbuild : buildFields file id fs fields = .ok out) :
    buildFields whole id fs fields = .ok out := by
  induction fs generalizing fields with
  | nil => exact hbuild
  | cons f fs ih =>
    unfold buildFields at hbuild ⊢
    split at hbuild
    · cases hbuild
    · next info hinfo =>
      rw [buildField_more h hinfo]
      dsimp only
      split at hbuild
      · cases hbuild
      · next hfresh =>
        rw [if_neg hfresh]
        exact ih hbuild

/-- So are arguments. -/
theorem buildArgs_more (h : file.PartOf whole) {id : String} {fields : Table FieldSpec}
    {args : List ArgDecl} {afterOptional : Bool} {params : List Parameter}
    (hbuild : buildArgs file id fields afterOptional args = .ok params) :
    buildArgs whole id fields afterOptional args = .ok params := by
  induction args generalizing afterOptional params with
  | nil => exact hbuild
  | cons a args ih =>
    -- what a type names in the part it names in the whole, and the other checks do not ask the file
    unfold buildArgs at hbuild ⊢
    split at hbuild
    · cases hbuild
    · next t ht =>
      rw [typeOf_more h ht]
      dsimp only
      split at hbuild
      · cases hbuild
      · next hsame =>
        rw [if_neg hsame]
        split at hbuild
        · cases hbuild
        · next hlast =>
          rw [if_neg hlast]
          split at hbuild
          · cases hbuild
          · next rest hrest =>
            rw [ih hrest]
            exact hbuild

/-- So is an init. -/
theorem buildInit_more (h : file.PartOf whole) {id : String} {fields : Table FieldSpec}
    {inits : List (List ArgDecl)} {init : Option (List Parameter)}
    (hbuild : buildInit file id fields inits = .ok init) :
    buildInit whole id fields inits = .ok init := by
  unfold buildInit at hbuild ⊢
  split at hbuild
  · exact hbuild
  · split at hbuild
    · cases hbuild
    · next params hparams =>
      rw [buildArgs_more h hparams]
      exact hbuild
  · cases hbuild

/-- So is a list type. -/
theorem buildListType_more (h : file.PartOf whole) {id : String} {list : Option ListHead}
    {element : Option FieldType} (hbuild : buildListType file id list = .ok element) :
    buildListType whole id list = .ok element := by
  unfold buildListType at hbuild ⊢
  split at hbuild
  · exact hbuild
  · split at hbuild
    · cases hbuild
    · next t ht =>
      rw [resolveName_more h ht]
      exact hbuild

/-- **A declaration is built in the whole file as in a part of it.** -/
theorem buildDeclaration_more (h : file.PartOf whole) {d : Declaration} {info : ResourceSpec}
    (hbuild : buildDeclaration file d = .ok info) : buildDeclaration whole d = .ok info := by
  unfold buildDeclaration at hbuild ⊢
  split at hbuild
  · cases hbuild
  · next element helement =>
    rw [buildListType_more h helement]
    dsimp only
    split at hbuild
    · cases hbuild
    · next fields hfields =>
      rw [buildFields_more h hfields]
      dsimp only
      split at hbuild
      · cases hbuild
      · next init hinit =>
        rw [buildInit_more h hinit]
        exact hbuild

/-- So the declarations of an accepted part have in the whole file the schemas
that they had. -/
theorem map_schemaOfDeclaration (h : file.PartOf whole) {s : Schema} (hs : file.schema = .ok s) :
    file.resources.map (schemaOfDeclaration whole)
      = file.resources.map (schemaOfDeclaration file) := by
  have hbuilt := ((addDeclarations_isOk_iff merged_nil).1 ⟨_, (parts_of_schema hs).1⟩).1
  apply List.map_congr_left
  intro d hd
  obtain ⟨info, hinfo⟩ := hbuilt d hd
  unfold schemaOfDeclaration
  rw [hinfo, buildDeclaration_more h hinfo]

end Parts

/-! ## §4. Two files. -/

section Append

variable {first second whole : File}

/-- The whole declares what either part does. -/
theorem declares_append (h : whole.resources = first.resources ++ second.resources) (id : String) :
    whole.Declares id ↔ first.Declares id ∨ second.Declares id := by
  unfold Source.File.Declares
  rw [h]
  simp only [List.mem_append, or_and_right, exists_or]

/-- **Merging the schemas of two files is compiling the files as one.**  If both
are accepted, without packs, and so is the file with the declarations of both,
then the merged schema has exactly the resources of the schema of that file, and
of each resource the same fields, constructor, type of the elements, standing of
an extension and defaults. -/
theorem merge_schema_of_append {s t u : Schema} (hfirst : first.packs = ∅)
    (hsecond : second.packs = ∅)
    (happend : whole.resources = first.resources ++ second.resources)
    (hs : first.schema = .ok s) (ht : second.schema = .ok t) (hu : whole.schema = .ok u) :
    (∀ id, ((s.merge t).resource? id).isSome = (u.resource? id).isSome)
      ∧ ∀ id merged info, (s.merge t).resource? id = some merged → u.resource? id = some info →
          merged.fields = info.fields ∧ merged.init = info.init
            ∧ merged.listType = info.listType ∧ merged.isExtension = info.isExtension
            ∧ merged.defaults = info.defaults := by
  have hfirstPart : first.PartOf whole :=
    ⟨hfirst, fun id h => (declares_append happend id).2 (.inl h)⟩
  have hsecondPart : second.PartOf whole :=
    ⟨hsecond, fun id h => (declares_append happend id).2 (.inr h)⟩
  -- a shape is put together from the shapes of the declarations, in their order
  have hshape : (s.merge t).shape = u.shape := by
    rw [shape_of_schema hu, happend, List.map_append, Schema.mergeAll_append, Schema.shape_merge,
      Schema.shape_merge, map_schemaOfDeclaration hfirstPart hs,
      map_schemaOfDeclaration hsecondPart ht, ← shape_of_schema hs, ← shape_of_schema ht]
  have hresource (id : String) : ((s.merge t).resource? id).map ResourceSpec.shape
      = (u.resource? id).map ResourceSpec.shape := by
    rw [← Schema.resource?_shape, ← Schema.resource?_shape, hshape]
  constructor
  · intro id
    have hsome := congrArg Option.isSome (hresource id)
    rwa [Option.isSome_map, Option.isSome_map] at hsome
  · intro id merged info hmerged hinfo
    have hsame := hresource id
    rw [hmerged, hinfo, Option.map_some, Option.map_some, Option.some.injEq] at hsame
    unfold ResourceSpec.shape at hsame
    rw [ResourceSpec.mk.injEq] at hsame
    obtain ⟨-, -, -, -, hinit, -, hextension, hdefaults, hfields, hlist⟩ := hsame
    exact ⟨hfields, hinit, hlist, hextension, hdefaults⟩

end Append

/-- A list resource whose elements are its own kind. -/
def groupsDeclaration : Declaration where
  comments := ["Groups."]
  isPrivate := false
  isExtension := false
  id := "groups"
  defaults := none
  list := some ⟨"groups", none⟩
  body := []
  pos := ⟨8, 1⟩

/-- The base declaration of a resource. -/
def baseFile : File := ⟨[], ∅, [fileDeclaration], ∅⟩

/-- An extension of it, and a resource of its own. -/
def extendingFile : File := ⟨[], ∅, [sizeDeclaration, groupsDeclaration], ∅⟩

/-- The declarations of both. -/
def extendedFile : File := ⟨[], ∅, [fileDeclaration, sizeDeclaration, groupsDeclaration], ∅⟩

/-- What succeeds has a value. -/
theorem exists_ok_of_isOk {ε α : Type} {r : Except ε α} (h : r.isOk = true) : ∃ a, r = .ok a := by
  cases r with
  | error e => cases h
  | ok a => exact ⟨a, rfl⟩

/-- The extension's field and defaults come to the resource in both ways. -/
theorem merge_schema_of_append_extended :
    ∃ s t u, baseFile.schema = .ok s ∧ extendingFile.schema = .ok t ∧ extendedFile.schema = .ok u
      ∧ (∀ id, ((s.merge t).resource? id).isSome = (u.resource? id).isSome)
      ∧ ∀ id merged info, (s.merge t).resource? id = some merged → u.resource? id = some info →
          merged.fields = info.fields ∧ merged.init = info.init
            ∧ merged.listType = info.listType ∧ merged.isExtension = info.isExtension
            ∧ merged.defaults = info.defaults := by
  obtain ⟨s, hs⟩ := exists_ok_of_isOk (r := baseFile.schema) (by decide +kernel)
  obtain ⟨t, ht⟩ := exists_ok_of_isOk (r := extendingFile.schema) (by decide +kernel)
  obtain ⟨u, hu⟩ := exists_ok_of_isOk (r := extendedFile.schema) (by decide +kernel)
  exact ⟨s, t, u, hs, ht, hu, merge_schema_of_append rfl rfl rfl hs ht hu⟩

end LazyFields
