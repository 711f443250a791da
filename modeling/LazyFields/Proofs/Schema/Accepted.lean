/-
  LazyFields.Proofs.Schema.Accepted
  ────────────────────────────────
  **THE CATALOG OF AN ACCEPTED FILE IS LAWFUL.**

  `Source.File.schema` refuses a file whose references lead nowhere or whose
  computed fields depend on each other in a loop.  This file shows what its
  acceptance is worth to a session: the catalog over the schema is lawful, as
  long as the file has no packs, declares every resource that it extends, and
  its names are names (`lawful_of_schema`).

    · `Merged.joined` — what the names of a file make of its resources
    · `Catalog.Over` — the catalogs over a schema, whatever logic is bound
-/
import LazyFields.Proofs.Catalog.Loading
import LazyFields.Proofs.Schema.Merged
import LazyFields.Proofs.Schema.Order

namespace LazyFields

open LazyFields.Source

/-! ## §1. What is asked of a file. -/

namespace Source.File

/-- Every resource of the file has a declaration that is no extension. -/
def HasBases (file : File) : Prop :=
  ∀ d ∈ file.resources, ∃ base ∈ file.resources, base.id = d.id ∧ base.isExtension = false

/-- Resources and fields of the file are named. -/
def HasNames (file : File) : Prop :=
  ∀ d ∈ file.resources, IsName d.id ∧ ∀ f ∈ d.fields, IsName f.decl.name

/-- The file is accepted as a schema on its own: it has no packs, extends nothing
that it does not declare, and its names are names. -/
structure Accepted (file : File) (s : Schema) : Prop where
  schema : file.schema = .ok s
  noPacks : file.packs = ∅
  bases : file.HasBases
  names : file.HasNames

end Source.File

/-! ## §2. The fields of a resource. -/

/-- Fields are kept under their own names, and static ones refer to nothing. -/
def FieldsSound (fields : Table FieldSpec) : Prop :=
  ∀ f spec, fields.get? f = some spec →
    spec.name = f ∧ IsName f ∧ (spec.isStatic = true → spec.refs = [])

/-- A field that is built has its name, and refers to nothing if it is static. -/
theorem buildField_sound {file : File} {id : String} {f : DeclaredField} {spec : FieldSpec}
    (h : buildField file id f = .ok spec) :
    spec.name = f.decl.name ∧ (spec.isStatic = true → spec.refs = []) := by
  obtain ⟨-, hname, hsame, hrefs⟩ := buildField_eq_ok h
  refine ⟨hname, fun hstatic => ?_⟩
  -- a static field is one that was written without a reference list
  have hnone : f.decl.refs = none := by simpa [hsame, FieldDecl.isStatic] using hstatic
  rw [hrefs, FieldDecl.references, hnone]
  rfl

/-- What declarations with names say is a sound table of fields. -/
theorem fieldsSound_of_says {file : File} {ds : List Declaration} {info : ResourceSpec}
    (h : Says file ds info) (hnames : ∀ d ∈ ds, ∀ f ∈ d.fields, IsName f.decl.name) :
    FieldsSound info.fields := by
  intro name spec hspec
  obtain ⟨d, hd, f, hf, rfl, hbuild⟩ := (h.field name spec).1 hspec
  obtain ⟨hname, hstatic⟩ := buildField_sound hbuild
  exact ⟨hname, hnames d hd f hf, hstatic⟩

/-! ## §3. The resources of a file. -/

/-- What is known of resources once the given declarations are joined. -/
structure Joined (seen : List Declaration) (resources : Table ResourceSpec) : Prop where
  /-- Every declaration has left its resource. -/
  complete : ∀ d ∈ seen, (resources.get? d.id).isSome
  sound : ∀ {key info}, resources.get? key = some info →
    info.id = key ∧ IsName key ∧ FieldsSound info.fields
  /-- What is only extended has extensions only. -/
  extension : ∀ {key info}, resources.get? key = some info → info.isExtension = true →
    ∀ d ∈ seen, d.id = key → d.isExtension = true
  declared : ∀ {key info}, resources.get? key = some info → ∃ d ∈ seen, d.id = key

/-- It follows from what the resources say. -/
theorem Merged.joined {file : File} {seen : List Declaration} {resources : Table ResourceSpec}
    (h : Merged file seen resources)
    (hnames : ∀ d ∈ seen, IsName d.id ∧ ∀ f ∈ d.fields, IsName f.decl.name) :
    Joined seen resources := by
  have hdeclared : ∀ {key info}, resources.get? key = some info → ∃ d ∈ seen, d.id = key := by
    intro key info hinfo
    have hne : declarationsOf seen key ≠ [] := fun hnil => by simp [(h.absent key).2 hnil] at hinfo
    obtain ⟨d, hd⟩ := List.exists_mem_of_ne_nil _ hne
    exact ⟨d, mem_declarationsOf.1 hd⟩
  constructor
  · intro d hd
    have hmem : d ∈ declarationsOf seen d.id := mem_declarationsOf.2 ⟨hd, rfl⟩
    cases hget : resources.get? d.id with
    | some info => rfl
    | none => simp [(h.absent d.id).1 hget] at hmem
  · intro key info hinfo
    obtain ⟨hid, hsays⟩ := h.content hinfo
    obtain ⟨d, hd, rfl⟩ := hdeclared hinfo
    refine ⟨hid, (hnames d hd).1, fieldsSound_of_says hsays fun d' hd' => ?_⟩
    exact (hnames d' (mem_declarationsOf.1 hd').1).2
  · intro key info hinfo hext d hd hkey
    rw [(h.content hinfo).2.isExtension, List.all_eq_true] at hext
    exact hext d (mem_declarationsOf.2 ⟨hd, hkey⟩)
  · exact hdeclared

/-! ## §4. Acceptance. -/

section Acceptance

variable {file : File} {s : Schema}

/-- The schema of a file is what its declarations add up to; its references are
known and do not loop. -/
theorem parts_of_schema (h : file.schema = .ok s) :
    addDeclarations file file.resources ∅ = .ok s.resources
      ∧ checkReferences file s = .ok () ∧ s.checkAcyclic = .ok () := by
  unfold Source.File.schema at h
  split at h
  · simp at h
  · next resources hresources =>
    split at h
    · simp at h
    · next hreferences =>
      split at h
      · simp at h
      · next hacyclic =>
        cases h
        exact ⟨hresources, hreferences, hacyclic⟩

/-- The resources of a schema are the declarations, merged. -/
theorem merged_of_schema (h : file.schema = .ok s) : Merged file file.resources s.resources :=
  merged_of_pass (parts_of_schema h).1

/-- A resource of an accepted file has its key for an id, a name, and sound
fields. -/
theorem resource_of_schema (h : file.schema = .ok s) (hbases : file.HasBases)
    (hnames : file.HasNames) {key : String} {info : ResourceSpec}
    (hinfo : s.resources.get? key = some info) :
    info.id = key ∧ IsName key ∧ info.isExtension = false ∧ FieldsSound info.fields := by
  have hjoined : Joined file.resources s.resources := (merged_of_schema h).joined hnames
  obtain ⟨hid, hkey, hfields⟩ := hjoined.sound hinfo
  refine ⟨hid, hkey, ?_, hfields⟩
  cases hext : info.isExtension with
  | false => rfl
  | true =>
    obtain ⟨d, hd, hdkey⟩ := hjoined.declared hinfo
    obtain ⟨base, hbase, hid', hnot⟩ := hbases d hd
    have := hjoined.extension hinfo hext base hbase (hid'.trans hdkey)
    simp [hnot] at this

/-- Each reference in a schema is known. -/
theorem knowsReference_of_schema (h : file.schema = .ok s) {key f reference : String}
    {info : ResourceSpec} {spec : FieldSpec} (hinfo : s.resources.get? key = some info)
    (hspec : info.fields.get? f = some spec) (href : reference ∈ spec.refs) :
    knowsReference file s info reference = true := by
  have hcheck := (parts_of_schema h).2.1
  unfold checkReferences at hcheck
  split at hcheck
  · next hnone =>
    have hmem : (info, key, spec.name, reference) ∈ s.references := by
      refine List.mem_flatMap.2 ⟨(key, info), Table.get?_eq_some_iff_mem.1 hinfo, ?_⟩
      refine List.mem_flatMap.2 ⟨spec, ?_, List.mem_map.2 ⟨reference, href, rfl⟩⟩
      exact List.mem_map.2 ⟨(f, spec), Table.get?_eq_some_iff_mem.1 hspec, rfl⟩
    have := List.find?_eq_none.1 hnone _ hmem
    simpa using this
  · simp at hcheck

/-- A reference of an accepted file names a field. -/
theorem referent_of_schema (h : file.schema = .ok s) (hpacks : file.packs = ∅)
    (hbases : file.HasBases) (hnames : file.HasNames) {key f reference : String}
    {info : ResourceSpec} {spec : FieldSpec} (hinfo : s.resources.get? key = some info)
    (hspec : info.fields.get? f = some spec) (href : reference ∈ spec.refs) :
    ∃ info' spec', s.resources.get? (referent key reference).1 = some info'
      ∧ info'.fields.get? (referent key reference).2 = some spec' := by
  have hknows := knowsReference_of_schema h hinfo hspec href
  unfold knowsReference at hknows
  unfold referent
  rcases hsplit : splitReference reference with ⟨_ | target, field⟩
  · simp only [hsplit, Bool.or_eq_true] at hknows
    have hnot := (resource_of_schema h hbases hnames hinfo).2.2.1
    have hfield : info.fields.contains field := by simpa [hnot] using hknows
    obtain ⟨spec', hspec'⟩ := Option.isSome_iff_exists.1 hfield
    exact ⟨info, spec', hinfo, hspec'⟩
  · simp only [hsplit] at hknows
    cases hother : s.resource? target with
    | none =>
      -- without packs there is nothing else that the name could mean
      have hnone : file.packAndName? target = none := by
        simp only [Source.File.packAndName?, hpacks]
        cases Text.splitFirst? '.' target <;> simp [Table.contains, Option.filter]
      simp [hother, hnone] at hknows
    | some other =>
      have hnot := (resource_of_schema h hbases hnames hother).2.2.1
      have hfield : other.fields.contains field := by simpa [hother, hnot] using hknows
      obtain ⟨spec', hspec'⟩ := Option.isSome_iff_exists.1 hfield
      exact ⟨other, spec', hother, hspec'⟩

end Acceptance

/-! ## §5. Catalogs over a schema. -/

namespace Catalog

/-- The catalog has the kinds of the schema and no others, whatever logic is
bound to them. -/
def Over (s : Schema) (c : Catalog) : Prop := c.schema = s ∧ c.packs = ∅

variable {file : File} {s : Schema} {c : Catalog}

/-- A catalog over the schema has its resources, under the same keys. -/
theorem Over.resource? (h : c.Over s) (key : String) :
    s.resources.get? key = (c.kinds.get? key).map Kind.info := by
  rw [← h.1]
  exact Table.get?_map Kind.info c.kinds key

/-- A field of the catalog is one of the schema. -/
theorem Over.field? (h : c.Over s) {p : String × String} {spec : FieldSpec}
    (hfield : c.field? p = some spec) :
    ∃ info, s.resources.get? p.1 = some info ∧ info.fields.get? p.2 = some spec := by
  obtain ⟨k, hk, hspec⟩ := Option.bind_eq_some_iff.1 hfield
  exact ⟨k.info, by rw [h.resource?, hk, Option.map_some], hspec⟩

/-- A field of the schema is one of the catalog. -/
theorem Over.field?_of_resource (h : c.Over s) {p : String × String} {info : ResourceSpec}
    {spec : FieldSpec} (hinfo : s.resources.get? p.1 = some info)
    (hspec : info.fields.get? p.2 = some spec) : c.field? p = some spec := by
  rw [h.resource?] at hinfo
  obtain ⟨k, hk, rfl⟩ := Option.map_eq_some_iff.1 hinfo
  simp [Catalog.field?, hk, ResourceSpec.field?, hspec]

/-- The catalog that loads a schema has its kinds. -/
theorem over_ofSchema (s : Schema) : (ofSchema s).Over s :=
  ⟨(schema_load empty s).trans s.empty_merge, rfl⟩

/-- Binding logic keeps the kinds. -/
theorem Over.modifyKind (h : c.Over s) {name : String} {f : Kind → Except Error Kind}
    (hf : ∀ k k', f k = .ok k' → k'.info = k.info) {c' : Catalog}
    (hc : c.modifyKind name f = .ok c') : c'.Over s := by
  have hschema := schema_modifyKind hf hc
  obtain ⟨_, _, _, -, -, rfl⟩ := modifyKind_eq_ok hc
  exact ⟨hschema.trans h.1, h.2⟩

/-- Binding a field keeps the catalog over the schema. -/
theorem Over.bind (h : c.Over s) {name field : String} {logic : ComputeLogic} {c' : Catalog}
    (hc : c.bind name field logic = .ok c') : c'.Over s := by
  refine h.modifyKind (fun k k' hbind => ?_) hc
  rw [(Kind.bind_eq_ok hbind).2]

/-- **The catalog over an accepted schema is lawful.** -/
theorem lawful_of_schema (h : file.schema = .ok s) (hpacks : file.packs = ∅)
    (hbases : file.HasBases) (hnames : file.HasNames) (hc : c.Over s) : c.Lawful where
  noPacks := hc.2
  name hk := (resource_of_schema h hbases hnames (by rw [hc.resource?, hk, Option.map_some])).1
  isKindName hk :=
    (resource_of_schema h hbases hnames (by rw [hc.resource?, hk, Option.map_some])).2.1
  isFieldName hfield := by
    obtain ⟨info, hinfo, hspec⟩ := hc.field? hfield
    exact ((resource_of_schema h hbases hnames hinfo).2.2.2 _ _ hspec).2.1
  fieldName hfield := by
    obtain ⟨info, hinfo, hspec⟩ := hc.field? hfield
    exact ((resource_of_schema h hbases hnames hinfo).2.2.2 _ _ hspec).1
  static hfield hstatic := by
    obtain ⟨info, hinfo, hspec⟩ := hc.field? hfield
    exact ((resource_of_schema h hbases hnames hinfo).2.2.2 _ _ hspec).2.2 hstatic
  known hfield href := by
    obtain ⟨info, hinfo, hspec⟩ := hc.field? hfield
    obtain ⟨info', spec', hinfo', hspec'⟩ :=
      referent_of_schema h hpacks hbases hnames hinfo hspec href
    exact ⟨spec', hc.field?_of_resource hinfo' hspec'⟩
  ranked := by
    obtain ⟨rank, hbound, hrank⟩ := Schema.exists_rank_of_checkAcyclic (parts_of_schema h).2.2
    -- static fields come first, computed ones in the order of their waves
    let static (p : String × String) : Bool := (c.field? p).any FieldSpec.isStatic
    refine ⟨fun p => if static p then 0 else rank (fieldNode p.1 p.2) + 1, ?_⟩
    intro p spec hfield
    obtain ⟨info, hinfo, hspec⟩ := hc.field? hfield
    obtain ⟨hname, -, hstatic⟩ := (resource_of_schema h hbases hnames hinfo).2.2.2 _ _ hspec
    have hsize : c.depth = s.graph.nodes.size + 2 := by rw [Catalog.depth, hc.1]
    constructor
    · have := hbound (fieldNode p.1 p.2)
      dsimp only
      split <;> omega
    · intro reference href
      have hcomputed : spec.isStatic = false := by
        cases hs : spec.isStatic with
        | false => rfl
        | true => simp [hstatic hs] at href
      obtain ⟨info', spec', hinfo', hspec'⟩ :=
        referent_of_schema h hpacks hbases hnames hinfo hspec href
      have hfield' := hc.field?_of_resource hinfo' hspec'
      have hp : static p = false := by simp [static, hfield, hcomputed]
      simp only [hp, Bool.false_eq_true, if_false]
      split
      · omega
      · next hnot =>
        have hcomputed' : spec'.isStatic = false := by simpa [static, hfield'] using hnot
        have hname' := ((resource_of_schema h hbases hnames hinfo').2.2.2 _ _ hspec').1
        have hnode := Schema.mem_nodes (Schema.mem_computedFields hinfo' hspec' hcomputed')
        rw [hname', fieldNode_referent] at hnode
        have hlt := hrank p.1 spec reference
          (Schema.mem_computedFields hinfo hspec hcomputed) href hnode
        rw [fieldNode_referent]
        rw [hname] at hlt
        omega

end Catalog

/-- A catalog over the schema of an accepted file is lawful. -/
theorem Source.File.Accepted.lawful {file : File} {s : Schema} {c : Catalog}
    (h : file.Accepted s) (hc : c.Over s) : c.Lawful :=
  Catalog.lawful_of_schema h.schema h.noPacks h.bases h.names hc

end LazyFields
