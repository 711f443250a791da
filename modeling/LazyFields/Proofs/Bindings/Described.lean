/-
  LazyFields.Proofs.Bindings.Described
  ────────────────────────────────
  **BINDINGS AND SCHEMA DESCRIBE THE SAME FIELDS.**

  The schema of a file is built declaration by declaration, and the bindings go
  through the declarations once more.  What both come to is compared here for each
  resource (`Resource.Describes`):

    · `perm_accessors`, `perm_computes` — one accessor for each field, one
      method of the provider for each computed one
    · `depicted_of_typeOf` — what stands for a type in the bindings
    · `describes_of_schema` — all of it, for a resource of the schema
-/
import LazyFields.Compilation
import LazyFields.Proofs.Bindings.Written
import LazyFields.Proofs.Schema.Valid

namespace LazyFields.Bindings

open LazyFields.Source

/-! ## §1. Types. -/

section Types

variable {file : File}

/-- The text that stands for a type expression in the bindings. -/
inductive Depicted (file : File) : TypeExpr → String → Prop
  | bool : Depicted file (.named "bool") "bool"
  | int : Depicted file (.named "int") "i64"
  | float : Depicted file (.named "float") "f64"
  | string : Depicted file (.named "string") "String"
  | regex : Depicted file (.named "regex") "String"
  | time : Depicted file (.named "time") "DateTime<Utc>"
  | dict : Depicted file (.named "dict") "Value"
  | any : Depicted file (.named "any") "Value"
  | list {element} : Depicted file (.list element) "Vec<Value>"
  | map {key value} : Depicted file (.map key value) "BTreeMap<String, Value>"
  /-- The name means a resource of the file. -/
  | declared {name} : FieldType.primitive? name = none → file.Declares name →
      Depicted file (.named name) (wrapperOf name)
  /-- The name means a resource of a pack. -/
  | packed {pack rest p} : FieldType.primitive? (pack ++ "." ++ rest) = none →
      ¬ file.Declares (pack ++ "." ++ rest) → '.' ∉ pack.toList →
      file.packs.get? pack = some p → p.resources.contains rest = true →
      Depicted file (.named (pack ++ "." ++ rest)) (pack ++ "::" ++ wrapperOf rest)

/-- The name of a primitive type is depicted by what stands for the type. -/
theorem depicted_primitive {name : String} {t : FieldType}
    (h : FieldType.primitive? name = some t) :
    Depicted file (.named name) (HostType.ofPrimitive t).text := by
  unfold FieldType.primitive? at h
  split_ifs at h with hbool hint hfloat hstring hregex htime hdict hany <;> cases h
  · exact hbool ▸ .bool
  · exact hint ▸ .int
  · exact hfloat ▸ .float
  · exact hstring ▸ .string
  · exact hregex ▸ .regex
  · exact htime ▸ .time
  · exact hdict ▸ .dict
  · exact hany ▸ .any

/-- The name of a primitive type means that type in the bindings. -/
theorem ofName_of_primitive {name : String} {t : FieldType}
    (h : FieldType.primitive? name = some t) : HostType.ofName file name = .ofPrimitive t := by
  rw [HostType.ofName, h]

/-- The name of a resource of the file means its wrapper. -/
theorem ofName_of_declared {name : String} (hprim : FieldType.primitive? name = none)
    (hdeclared : file.Declares name) : HostType.ofName file name = .wrapper (wrapperOf name) := by
  rw [HostType.ofName, hprim]
  exact if_pos (contains_localNames.2 hdeclared)

/-- The name of a resource of a pack means the wrapper in the module of the pack. -/
theorem ofName_of_packed {pack rest : String} {p : Pack}
    (hprim : FieldType.primitive? (pack ++ "." ++ rest) = none)
    (hdeclared : ¬ file.Declares (pack ++ "." ++ rest)) (hdot : '.' ∉ pack.toList)
    (hpack : file.packs.get? pack = some p) :
    HostType.ofName file (pack ++ "." ++ rest) = .packWrapper pack (wrapperOf rest) := by
  have hcontains : file.packs.contains pack = true := by simp [Table.contains, hpack]
  have hcut : file.packAndName? (pack ++ "." ++ rest) = some (pack, rest) :=
    packAndName?_iff.2 ⟨rfl, hdot, hcontains⟩
  rw [HostType.ofName, hprim]
  dsimp only
  rw [if_neg (mt contains_localNames.1 hdeclared), hcut]

/-- What a name means in the schema is what the bindings depict for it. -/
theorem depicted_of_nameMeans {name : String} {t : FieldType}
    (h : NameMeans file file.FromPack name t) :
    Depicted file (.named name) (HostType.ofName file name).text := by
  cases h with
  | primitive hprim =>
    rw [ofName_of_primitive hprim]
    exact depicted_primitive hprim
  | declared hprim hdeclared =>
    rw [ofName_of_declared hprim hdeclared]
    exact .declared hprim hdeclared
  | packed hprim hdeclared hpacked =>
    obtain ⟨pack, p, rfl, hdot, hpack, hrest⟩ := hpacked
    rw [ofName_of_packed hprim hdeclared hdot hpack]
    exact .packed hprim hdeclared hdot hpack hrest

/-- **A type that the builder reads is depicted.** -/
theorem depicted_of_typeOf {e : TypeExpr} {t : FieldType} (h : typeOf file e = .ok t) :
    Depicted file e (HostType.ofExpr file e).text := by
  cases typeOf_eq_ok_iff.1 h with
  | named hname => exact depicted_of_nameMeans hname
  | list _ => exact .list
  | map _ _ => exact .map

end Types

/-! ## §2. Fields. -/

section Fields

variable {file : File} {s : Schema} {id : String} {info : ResourceSpec}

/-- The bindings and the builder go through the same declarations. -/
theorem declarationsOf_eq (file : File) (id : String) :
    Bindings.declarationsOf file id = LazyFields.declarationsOf file.resources id :=
  List.filter_congr fun d _ => beq_eq_decide d.id id

/-- The fields of a resource are those of its declarations. -/
theorem mem_fieldsOf {f : DeclaredField} :
    f ∈ fieldsOf file id ↔ ∃ d ∈ LazyFields.declarationsOf file.resources id, f ∈ d.fields := by
  rw [fieldsOf, declarationsOf_eq, List.mem_flatMap]

/-- A resource has each field once. -/
theorem nodup_fieldsOf (h : file.schema = .ok s) (id : String) :
    ((fieldsOf file id).map fun f => f.decl.name).Nodup := by
  have hvalid := addDeclarations_isOk_iff_valid.1 ⟨_, (parts_of_schema h).1⟩
  obtain ⟨-, -, honce⟩ := compatibleAll_iff.1 hvalid.2.2.2.1
  have hnames := honce id
  rw [fieldsOf, declarationsOf_eq, List.map_flatMap]
  exact hnames

/-- The schema of a field is made from its declaration. -/
theorem field?_iff (h : file.schema = .ok s) (hinfo : s.resource? id = some info) {name : String}
    {spec : FieldSpec} : info.field? name = some spec
      ↔ ∃ f ∈ fieldsOf file id, f.decl.name = name ∧ buildField file id f = .ok spec := by
  have hm := merged_of_schema h
  rw [ResourceSpec.field?, (hm.content hinfo).2.field]
  simp only [mem_fieldsOf]
  constructor
  · intro hfield
    obtain ⟨d, hd, f, hf, hname, hbuild⟩ := hfield
    rw [(mem_declarationsOf.1 hd).2] at hbuild
    exact ⟨f, ⟨d, hd, hf⟩, hname, hbuild⟩
  · intro hfield
    obtain ⟨f, ⟨d, hd, hf⟩, hname, hbuild⟩ := hfield
    rw [← (mem_declarationsOf.1 hd).2] at hbuild
    exact ⟨d, hd, f, hf, hname, hbuild⟩

/-- Each field of a file that has a schema can be built. -/
theorem built_of_schema (h : file.schema = .ok s) {f : DeclaredField} (hf : f ∈ fieldsOf file id) :
    ∃ spec, buildField file id f = .ok spec := by
  have hm := merged_of_schema h
  obtain ⟨d, hd, hf⟩ := mem_fieldsOf.1 hf
  obtain ⟨hmem, hid⟩ := mem_declarationsOf.1 hd
  exact hid ▸ hm.built hmem hf

/-- **There is one accessor for each field.** -/
theorem perm_accessors (h : file.schema = .ok s) (hinfo : s.resource? id = some info) :
    ((resourceOf file id).accessors.map Accessor.field).Perm info.fields.keys := by
  have hfields : (resourceOf file id).accessors.map Accessor.field
      = (fieldsOf file id).map fun f => f.decl.name := by
    show ((fieldsOf file id).map (accessorOf file)).map Accessor.field = _
    rw [List.map_map]
    rfl
  rw [hfields]
  refine (List.perm_ext_iff_of_nodup (nodup_fieldsOf h id) info.fields.nodup_keys).2 fun name => ?_
  rw [← Table.contains_iff_mem_keys, Table.contains, Option.isSome_iff_exists, List.mem_map]
  constructor
  · intro hname
    obtain ⟨f, hf, rfl⟩ := hname
    obtain ⟨spec, hbuild⟩ := built_of_schema h hf
    exact ⟨spec, (field?_iff h hinfo).2 ⟨f, hf, rfl, hbuild⟩⟩
  · intro hname
    obtain ⟨spec, hspec⟩ := hname
    obtain ⟨f, hf, hname, -⟩ := (field?_iff h hinfo).1 hspec
    exact ⟨f, hf, hname⟩

/-- **There is one method of the provider for each computed field.** -/
theorem perm_computes (h : file.schema = .ok s) (hinfo : s.resource? id = some info) :
    ((resourceOf file id).computes.map Compute.field).Perm info.computed := by
  have hfields : (resourceOf file id).computes.map Compute.field
      = ((fieldsOf file id).filter fun f => !f.decl.isStatic).map fun f => f.decl.name := by
    show (((fieldsOf file id).filter _).map (computeOf file id)).map Compute.field = _
    rw [List.map_map]
    rfl
  have hnodup : (((fieldsOf file id).filter fun f => !f.decl.isStatic).map
      fun f => f.decl.name).Nodup :=
    (nodup_fieldsOf h id).sublist (List.filter_sublist.map _)
  rw [hfields]
  -- neither list repeats a name, so the same names in both are enough
  refine (List.perm_ext_iff_of_nodup hnodup (Table.nodup_keys _)).2 fun name => ?_
  rw [← ResourceSpec.computed, ResourceSpec.mem_computed, List.mem_map]
  constructor
  · intro hname
    obtain ⟨f, hf, rfl⟩ := hname
    obtain ⟨hf, hstatic⟩ := List.mem_filter.1 hf
    obtain ⟨spec, hbuild⟩ := built_of_schema h hf
    refine ⟨spec, (field?_iff h hinfo).2 ⟨f, hf, rfl, hbuild⟩, ?_⟩
    rw [(buildField_eq_ok hbuild).2.2.1]
    simpa using hstatic
  · intro hname
    obtain ⟨spec, hspec, hstatic⟩ := hname
    obtain ⟨f, hf, hname, hbuild⟩ := (field?_iff h hinfo).1 hspec
    rw [(buildField_eq_ok hbuild).2.2.1] at hstatic
    exact ⟨f, List.mem_filter.2 ⟨hf, by simp [hstatic]⟩, hname⟩

end Fields

/-! ## §3. Resources. -/

/-- The type stands for that of a field: for the type expression that the field is
declared with, which the schema has resolved. -/
def StandsFor (file : File) (id : String) (info : ResourceSpec) (field : String) (t : HostType) :
    Prop :=
  ∃ d ∈ file.resources, ∃ f ∈ d.fields, ∃ e spec, d.id = id ∧ f.decl.name = field
    ∧ f.decl.type = some e ∧ info.field? field = some spec
    ∧ TypeMeans file file.FromPack e spec.type ∧ Depicted file e t.text

/-- The accessor that some items have for a field of a resource. -/
def accessor? (rs : List Resource) (id field : String) : Option Accessor :=
  (rs.find? fun r => r.id = id).bind fun r => r.accessors.find? fun a => a.field = field

/-- The items of a resource describe what the schema says of it. -/
structure Resource.Describes (file : File) (r : Resource) (info : ResourceSpec) : Prop where
  /-- Each field has one accessor. -/
  accessors : (r.accessors.map Accessor.field).Perm info.fields.keys
  /-- Each computed field has one method and one closure. -/
  computes : (r.computes.map Compute.field).Perm info.computed
  /-- The closure casts the dependencies as they come. -/
  references : ∀ c ∈ r.computes, ∀ spec, info.field? c.field = some spec →
    c.params.map Param.reference = spec.refs
  accessorType : ∀ a ∈ r.accessors, StandsFor file r.id info a.field a.type
  computeType : ∀ c ∈ r.computes, StandsFor file r.id info c.field c.type
  /-- A dependency is cast to the type of the accessor of the field that it names. -/
  castType : ∀ c ∈ r.computes, ∀ p ∈ c.params,
    p.type = ((accessor? (ofFile file) ((splitReference p.reference).1.getD r.id)
      (splitReference p.reference).2).map Accessor.type).getD .value

section Resources

variable {file : File} {s : Schema} {id : String} {info : ResourceSpec}

/-- The type that the bindings give a field stands for its type in the schema. -/
theorem standsFor_fieldType (h : file.schema = .ok s) (hinfo : s.resource? id = some info)
    {f : DeclaredField} (hf : f ∈ fieldsOf file id) :
    StandsFor file id info f.decl.name (fieldType file f.decl) := by
  obtain ⟨spec, hbuild⟩ := built_of_schema h hf
  obtain ⟨⟨e, he, ht⟩, -⟩ := buildField_eq_ok hbuild
  obtain ⟨d, hd, hmem⟩ := mem_fieldsOf.1 hf
  obtain ⟨hdeclared, hid⟩ := mem_declarationsOf.1 hd
  refine ⟨d, hdeclared, f, hmem, e, spec, hid, rfl, he,
    (field?_iff h hinfo).2 ⟨f, hf, rfl, hbuild⟩, typeOf_eq_ok_iff.1 ht, ?_⟩
  rw [fieldType, he]
  exact depicted_of_typeOf ht

/-- The resources of the bindings are those the file declares. -/
theorem mem_resourceIds : id ∈ resourceIds file ↔ file.Declares id := by
  rw [resourceIds, Table.mem_keys_ofNames, ← List.contains_iff_mem, contains_localNames]

/-- What is not declared has no fields. -/
theorem fieldsOf_of_not_declares (h : ¬ file.Declares id) : fieldsOf file id = [] := by
  rw [fieldsOf, Bindings.declarationsOf, List.flatMap_eq_nil_iff]
  intro d hd
  obtain ⟨hmem, hid⟩ := List.mem_filter.1 hd
  exact absurd ⟨d, hmem, by simpa using hid⟩ h

/-- What a reference names is what has an accessor. -/
theorem referenceType_eq (file : File) (id reference : String) :
    referenceType file id reference
      = ((accessor? (ofFile file) ((splitReference reference).1.getD id)
        (splitReference reference).2).map Accessor.type).getD .value := by
  have haccessor : ∀ target name, accessor? (ofFile file) target name
      = ((fieldsOf file target).find? fun f => f.decl.name == name).map (accessorOf file) := by
    intro target name
    by_cases hdeclared : file.Declares target
    -- a resource is searched by its id, and is described from nothing but its id
    · have hfound : (ofFile file).find? (fun r => r.id = target) = some (resourceOf file target) := by
        rw [ofFile, List.find?_map]
        cases hid : (resourceIds file).find? ((fun r => decide (r.id = target)) ∘ resourceOf file) with
        | none =>
          have hnone := List.find?_eq_none.1 hid target (mem_resourceIds.2 hdeclared)
          simp [resourceOf] at hnone
        | some other =>
          have hother := List.find?_some hid
          obtain rfl : other = target := of_decide_eq_true hother
          rfl
      rw [accessor?, hfound, Option.bind_some]
      show ((fieldsOf file target).map (accessorOf file)).find? _ = _
      rw [List.find?_map]
      rfl
    · rw [fieldsOf_of_not_declares hdeclared, accessor?, List.find?_eq_none.2, Option.bind_none]
      · rfl
      · intro r hr
        obtain ⟨other, hother, rfl⟩ := List.mem_map.1 hr
        simp only [decide_eq_true_eq]
        rintro rfl
        exact hdeclared (mem_resourceIds.1 hother)
  unfold referenceType
  rw [haccessor]
  cases hfind : (fieldsOf file ((splitReference reference).1.getD id)).find?
      fun f => f.decl.name == (splitReference reference).2 <;> simp [hfind, accessorOf]

/-- The description of a resource in the bindings is that of its kind in the
schema. -/
theorem describes_of_schema (h : file.schema = .ok s) (hinfo : s.resource? id = some info) :
    (resourceOf file id).Describes file info where
  accessors := perm_accessors h hinfo
  computes := perm_computes h hinfo
  references c hc spec hspec := by
    obtain ⟨f, hf, rfl⟩ := List.mem_map.1 hc
    obtain ⟨f', hf', hname, hbuild⟩ := (field?_iff h hinfo).1 hspec
    -- a name stands for one field only
    obtain rfl : f' = f :=
      List.inj_on_of_nodup_map (nodup_fieldsOf h id) hf' (List.mem_of_mem_filter hf) hname
    rw [(buildField_eq_ok hbuild).2.2.2]
    show (f'.decl.references.map _).map Param.reference = _
    rw [List.map_map]
    exact List.map_id _
  accessorType a ha := by
    obtain ⟨f, hf, rfl⟩ := List.mem_map.1 ha
    exact standsFor_fieldType h hinfo hf
  computeType c hc := by
    obtain ⟨f, hf, rfl⟩ := List.mem_map.1 hc
    exact standsFor_fieldType h hinfo (List.mem_of_mem_filter hf)
  castType c hc p hp := by
    obtain ⟨f, -, rfl⟩ := List.mem_map.1 hc
    obtain ⟨reference, -, rfl⟩ := List.mem_map.1 hp
    exact referenceType_eq file id reference

/-- The bindings have the items of the schema's resources. -/
theorem ids_ofFile (h : file.schema = .ok s) :
    (ofFile file).map Resource.id = s.resources.keys := by
  have hm := merged_of_schema h
  have hsame : Table.ofNames file.localNames = s.resources.map fun _ => () := by
    refine Table.ext_get? fun id => ?_
    have hiff : ((Table.ofNames file.localNames).get? id).isSome = true
        ↔ (s.resources.get? id).isSome = true := by
      rw [Option.isSome_iff_exists (x := s.resources.get? id), hm.declares, ← contains_localNames,
        List.contains_iff_mem]
      exact Table.contains_ofNames
    rw [Table.get?_map]
    cases hown : (Table.ofNames file.localNames).get? id <;>
      cases hinfo : s.resources.get? id <;> simp_all
  show ((resourceIds file).map (resourceOf file)).map Resource.id = _
  rw [List.map_map, resourceIds, hsame]
  show (((s.resources.entries.map fun e => (e.1, ())).map Prod.fst).map fun id => id) = _
  rw [List.map_id', List.map_map]
  rfl

/-- A compilation has the schema of the file, and the text of the bindings as its
code. -/
theorem parts_of_compilation {options : Compilation.Options} {c : Compilation}
    (h : Compilation.ofResolved options file = .ok c) :
    file.schema = .ok c.schema ∧ c.code = text options.bindings file c.schema := by
  unfold Compilation.ofResolved at h
  split at h
  · cases h
  · next s hs =>
    obtain rfl := Except.ok.inj h
    dsimp only
    exact ⟨hs, rfl⟩

/-- **The bindings describe what the schema says.**  The text of the bindings ends
with the lines of its items, and there are items for each resource of the schema and
no other.  Those of a resource describe its fields and are written as such. -/
theorem bindings_describe_schema {options : Compilation.Options} {c : Compilation}
    (h : Compilation.ofResolved options file = .ok c) :
    (∃ before, c.code = lines (before ++ (ofFile file).flatMap Resource.lines))
      ∧ (ofFile file).map Resource.id = c.schema.resources.keys
      ∧ ∀ r ∈ ofFile file, r.Written
        ∧ ∃ info, c.schema.resource? r.id = some info ∧ r.Describes file info := by
  obtain ⟨hschema, hcode⟩ := parts_of_compilation h
  refine ⟨⟨_, hcode⟩, ids_ofFile hschema, fun r hr => ⟨r.written, ?_⟩⟩
  obtain ⟨id, -, rfl⟩ := List.mem_map.1 hr
  have hkey : id ∈ c.schema.resources.keys := by
    rw [← ids_ofFile hschema]
    exact List.mem_map.2 ⟨resourceOf file id, hr, rfl⟩
  obtain ⟨info, hinfo⟩ := Option.isSome_iff_exists.1 (Table.contains_iff_mem_keys.2 hkey)
  exact ⟨info, hinfo, describes_of_schema hschema hinfo⟩

end Resources

/-! ## §4. An example. -/

/-- A resource and an extension of it, with a field of a pack and an embedded
resource. -/
def directory : File where
  imports := []
  options := ∅
  packs := Table.ofList [("core", ⟨Table.ofNames ["user"], "crate::core"⟩)]
  resources := [
    ⟨[], false, false, "dir", none, none,
      [⟨[], .field ⟨"path", none, some (.named "string")⟩, ⟨2, 3⟩⟩,
        ⟨[], .field ⟨"owner", some ["path"], some (.named "core.user")⟩, ⟨3, 3⟩⟩], ⟨1, 1⟩⟩,
    ⟨[], false, true, "dir", none, none,
      [⟨[], .field ⟨"sizes", some ["path", "owner"], some (.map "string" (.named "int"))⟩, ⟨6, 3⟩⟩,
        ⟨[], .embed "disk.info" none, ⟨7, 3⟩⟩], ⟨5, 1⟩⟩,
    ⟨[], false, false, "disk.info", none, none, [], ⟨9, 1⟩⟩]

/-- The schema of `directory`. -/
def directorySchema : Schema := directory.schema.toOption.getD ∅

theorem compiled_directory : Compilation.ofResolved .default directory
    = .ok ⟨directory, directorySchema,
        text Compilation.Options.default.bindings directory directorySchema,
        directorySchema.digest⟩ := by
  have hs : directory.schema = .ok directorySchema := by decide +kernel
  rw [Compilation.ofResolved, hs]

theorem bindings_describe_directory : ∃ c,
    Compilation.ofResolved .default directory = .ok c
      ∧ (ofFile directory).map Resource.id = c.schema.resources.keys
      ∧ ∃ info, c.schema.resource? "dir" = some info
        ∧ (resourceOf directory "dir").Describes directory info
        ∧ info.computed = ["disk", "owner", "sizes"]
        ∧ (resourceOf directory "dir").accessors.map (fun a => (a.field, a.type.text))
          = [("path", "String"), ("owner", "core::User"), ("sizes", "BTreeMap<String, Value>"),
            ("disk", "DiskInfo")] := by
  obtain ⟨-, hids, hitems⟩ := bindings_describe_schema compiled_directory
  obtain ⟨-, info, hinfo, hdescribes⟩ := hitems (resourceOf directory "dir")
    (List.mem_map.2 ⟨"dir", by decide +kernel, rfl⟩)
  have hcomputed : (directorySchema.resource? "dir").map ResourceSpec.computed
      = some ["disk", "owner", "sizes"] := by decide +kernel
  refine ⟨_, compiled_directory, hids, info, hinfo, hdescribes, ?_, by decide +kernel⟩
  have hdir : directorySchema.resource? "dir" = some info := hinfo
  rw [hdir, Option.map_some] at hcomputed
  exact Option.some.inj hcomputed

end LazyFields.Bindings
