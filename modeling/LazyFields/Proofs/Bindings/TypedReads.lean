/-
  LazyFields.Proofs.Bindings.TypedReads
  ────────────────────────────────
  **WHAT A TYPED READ OF A VALID FIELD GIVES.**

  Three things decide what the accessor of a field gives: which values a field of the
  declared type may hold, which type the bindings have for it, and which values that
  type converts.  They agree on everything but null: a field of any type may hold
  null, which only the type of any value converts.

    · `takes_ofType` — a value of a type is converted, unless it is null
    · `implements_ofExpr` — the type in the bindings has the conversion of the schema's
    · `castAll_eq` — what a closure of the bindings makes of its dependencies
    · `Keeps.after`, `Keeps.foldl` — catalogs keep the fields of a loaded file
    · `typed_read_of_valid` — what accessors and closures are given

  An argument that is null is a valid value, so a read fails where nothing is wrong
  (`null_is_not_read`).
-/
import LazyFields.Proofs.Bindings.Described
import LazyFields.Proofs.Catalog.History
import LazyFields.Proofs.Session.Ends
import LazyFields.Proofs.Session.Reachable

namespace LazyFields

open LazyFields.Source

namespace Bindings

/-! ## §1. Conversions. -/

/-- How the value of a field is converted. -/
inductive Conversion where
  | native (type : Value.NativeType)
  /-- Into the wrapper of a resource, which takes its instances. -/
  | instanceOf (id : String)
  deriving DecidableEq, Repr

namespace Conversion

/-- What errors call it. -/
def name : Conversion → String
  | native type => type.name
  | instanceOf id => id

/-- Whether the value can be converted. -/
def takes : Conversion → Value → Bool
  | native type, v => v.isNative type
  | instanceOf id, .resource kind _ => kind == id
  | instanceOf _, _ => false

/-- Convert the value of a field. -/
def cast (c : Conversion) (kind field : String) (v : Value) : Except Error Value :=
  match c with
  | native type => v.cast kind field type
  | instanceOf id =>
      if (instanceOf id).takes v then .ok v else .error (.cast kind field id v.typeName)

/-- Read a field of an instance and convert its value. -/
def read (c : Conversion) (fuel n : Nat) (kind field : String) (s : Session) :
    Option (Except Error Value × Session) :=
  (s.run fuel (.field n field)).map fun p => (p.1.bind (c.cast kind field), p.2)

/-- The conversion for a type of a schema. -/
def ofType : FieldType → Conversion
  | .bool => native .bool
  | .int => native .int
  | .float => native .float
  | .string | .regex => native .string
  | .time => native .time
  | .dict | .any => native .any
  | .resource name => instanceOf name
  | .array _ => native .array
  | .map _ _ => native .map

/-- A cast passes on the values that the conversion takes, and refuses the
others. -/
theorem cast_eq_ite (c : Conversion) (kind field : String) (v : Value) : c.cast kind field v
    = if c.takes v then .ok v else .error (.cast kind field c.name v.typeName) := by
  cases c with
  | native type =>
    have htakes : (native type).takes v = v.isNative type := by cases v <;> rfl
    rw [cast, Value.cast, Value.native?, htakes]
    cases v.isNative type <;> rfl
  | instanceOf id => rfl

/-- **A value of a type is converted, unless it is null** and null is not asked for. -/
theorem takes_ofType {v : Value} {t : FieldType} (h : v.matchesType t = true) :
    (ofType t).takes v = true ↔ v.isNull = false ∨ ofType t = native .any := by
  cases t <;> cases v <;>
    simp_all [ofType, takes, Value.isNative, Value.isNull, Value.matchesType]

end Conversion

/-- The bindings of the file, or those of a pack that it imports, implement the
conversion for the type. -/
inductive HostType.Implements (file : File) : HostType → Conversion → Prop
  | bool : Implements file .bool (.native .bool)
  | int : Implements file .i64 (.native .int)
  | float : Implements file .f64 (.native .float)
  | string : Implements file .string (.native .string)
  | time : Implements file .dateTime (.native .time)
  | value : Implements file .value (.native .any)
  | vec : Implements file .vec (.native .array)
  | map : Implements file .map (.native .map)
  /-- A wrapper takes the instances of the resource that it was made for. -/
  | wrapper {r} : r ∈ ofFile file → Implements file (.wrapper r.wrapper) (.instanceOf r.id)
  | packWrapper {pack p id} : file.packs.get? pack = some p → p.resources.contains id = true →
      Implements file (.packWrapper pack (wrapperOf id)) (.instanceOf id)

namespace HostType

variable {file : File} {t : HostType} {c : Conversion}

/-- Only the type of any value asks for any value. -/
theorem Implements.eq_value_iff (h : t.Implements file c) : t = .value ↔ c = .native .any := by
  cases h <;> simp

/-- The host type of a primitive type converts to that type. -/
theorem implements_ofPrimitive {name : String} {type : FieldType}
    (h : FieldType.primitive? name = some type) :
    (ofPrimitive type).Implements file (.ofType type) := by
  unfold FieldType.primitive? at h
  split_ifs at h with hbool hint hfloat hstring hregex htime hdict hany <;> cases h
  · exact .bool
  · exact .int
  · exact .float
  · exact .string
  · exact .string
  · exact .time
  · exact .value
  · exact .value

/-- The host type of a name converts to what the name means in the schema. -/
theorem implements_ofName {name : String} {type : FieldType}
    (h : NameMeans file file.FromPack name type) :
    (ofName file name).Implements file (.ofType type) := by
  unfold ofName
  cases h with
  | primitive hprim =>
    rw [hprim]
    exact implements_ofPrimitive hprim
  | declared hprim hdeclared =>
    rw [hprim]
    dsimp only
    rw [if_pos (contains_localNames.2 hdeclared)]
    have hitems : resourceOf file name ∈ ofFile file :=
      List.mem_map.2 ⟨name, mem_resourceIds.2 hdeclared, rfl⟩
    exact .wrapper (r := resourceOf file name) hitems
  | packed hprim hdeclared hpacked =>
    obtain ⟨pack, p, rfl, hdot, hpack, hrest⟩ := hpacked
    have hcontains : file.packs.contains pack = true := by simp [Table.contains, hpack]
    rw [hprim]
    dsimp only
    rw [if_neg (mt contains_localNames.1 hdeclared), packAndName?_iff.2 ⟨rfl, hdot, hcontains⟩]
    exact .packWrapper hpack hrest

/-- **The bindings have the conversion of the schema's type.** -/
theorem implements_ofExpr {e : TypeExpr} {type : FieldType} (h : typeOf file e = .ok type) :
    (ofExpr file e).Implements file (.ofType type) := by
  cases typeOf_eq_ok_iff.1 h with
  | named hname => exact implements_ofName hname
  | list _ => exact .vec
  | map _ _ => exact .map

/-- Why a reader with the type is refused a valid value: the value is null, and only any
other value was asked for. -/
def refusal? (t : HostType) (c : Conversion) (kind field : String) (v : Value) : Option Error :=
  if v.isNull && t != .value then some (.cast kind field c.name v.typeName) else none

/-- **The conversion of a type refuses null and nothing else,** and null only if it was
not asked for. -/
theorem Implements.cast_eq {type : FieldType} (h : t.Implements file (.ofType type))
    {v : Value} (hv : v.matchesType type = true) (kind field : String) :
    (Conversion.ofType type).cast kind field v
      = (t.refusal? (.ofType type) kind field v).elim (.ok v) .error := by
  have htakes := Conversion.takes_ofType hv
  rw [← h.eq_value_iff] at htakes
  rw [Conversion.cast_eq_ite, refusal?]
  by_cases hgiven : v.isNull = false ∨ t = .value
  · have hnot : ¬ (v.isNull && t != .value) = true := by
      rcases hgiven with hnull | rfl
      · simp [hnull]
      · simp
    rw [if_pos (htakes.2 hgiven), if_neg hnot]
    rfl
  · have hrefused : (v.isNull && t != .value) = true := by simpa using hgiven
    rw [if_neg (mt htakes.1 hgiven), if_pos hrefused]
    rfl

end HostType

/-! ## §2. Dependencies. -/

/-- Cast the dependencies to the types of the parameters, one by one and in order; those
that are missing are null. -/
def castAll (kind : String) : List (Param × Conversion) → List Value → Except Error (List Value)
  | [], _ => .ok []
  | (p, c) :: params, values =>
      match c.cast kind p.reference (values.headD .null) with
      | .error e => .error e
      | .ok v => (castAll kind params values.tail).map (v :: ·)

/-- Why a parameter is refused its dependency. -/
def Param.refusal? (kind : String) (p : Param) (c : Conversion) (v : Value) : Option Error :=
  p.type.refusal? c kind p.reference v

/-- Why the first parameter that is refused its dependency is refused it. -/
def firstRefusal? (kind : String) (params : List (Param × Conversion)) (values : List Value) :
    Option Error :=
  (params.zip values).findSome? fun e => e.1.1.refusal? kind e.1.2 e.2

/-- **The first parameter that is refused its dependency decides;** if there is none, the
dependencies are handed on as they are. -/
theorem castAll_eq {kind : String} {params : List (Param × Conversion)} {values : List Value}
    (h : List.Forall₂ (fun p v => p.2.cast kind p.1.reference v
      = (p.1.refusal? kind p.2 v).elim (.ok v) .error) params values) :
    castAll kind params values
      = (firstRefusal? kind params values).elim (.ok values) .error := by
  induction h with
  | nil => rfl
  | @cons p v params values hcast _ ih =>
    rw [castAll, List.headD_cons, hcast, firstRefusal?, List.zip_cons_cons, List.findSome?_cons]
    cases hrefusal : p.1.refusal? kind p.2 v with
    | some e => rfl
    | none =>
      -- the others are cast as they would be alone
      show (castAll kind params values).map (v :: ·)
        = (firstRefusal? kind params values).elim (.ok (v :: values)) .error
      rw [ih]
      cases firstRefusal? kind params values <;> rfl

end Bindings

/-! ## §3. Catalogs that keep a schema. -/

namespace Catalog

variable {c : Catalog} {s : Schema}

/-- The kinds have the fields of the schema, with the types that it gives them. -/
def Keeps (c : Catalog) (s : Schema) : Prop :=
  ∀ p spec, s.field? p = some spec → ∃ own, c.field? p = some own ∧ own.type = spec.type

/-- A schema is kept where it is loaded, unless some of its fields are known with
other types. -/
theorem keeps_load (h : ∀ {p own spec}, c.field? p = some own → s.field? p = some spec →
    own.type = spec.type) : (c.load s).Keeps s := by
  intro p spec hspec
  rw [← field?_schema, schema_load, Schema.field?_merge, field?_schema]
  cases hown : c.field? p with
  | none => exact ⟨spec, hspec, rfl⟩
  | some own => exact ⟨own, rfl, h hown hspec⟩

/-- Whatever a catalog is asked to do, it keeps what it kept: other schemas only add to
it, and setting logic leaves fields alone. -/
theorem Keeps.after (h : c.Keeps s) (call : Call) : (c.after call).Keeps s := by
  intro p spec hspec
  obtain ⟨own, hown, htype⟩ := h p spec hspec
  refine ⟨own, ?_, htype⟩
  rw [← field?_schema, schema_after]
  cases call.schema? with
  | none => exact (field?_schema c p).trans hown
  | some t =>
    show (c.schema.merge t).field? p = some own
    rw [Schema.field?_merge, field?_schema, hown, Option.some_or]

/-- The kind of a resource of the schema has its fields. -/
theorem Keeps.field?_of_get (h : c.Keeps s) {id field : String} {spec : FieldSpec} {k : Kind}
    (hspec : s.field? (id, field) = some spec) (hk : c.get id = .ok k) :
    ∃ own, k.info.field? field = some own ∧ own.type = spec.type := by
  obtain ⟨own, hown, htype⟩ := h _ spec hspec
  obtain ⟨known, hknown, hfield⟩ := Option.bind_eq_some_iff.1 hown
  -- a kind of the whole id comes before one without its pack
  have hget : c.get id = .ok known := by
    rw [get, lookup?, hknown, Option.some_or]
  obtain rfl : known = k := Except.ok.inj (hget.symm.trans hk)
  exact ⟨own, hfield, htype⟩

end Catalog

namespace Bindings

/-! ## §4. Typed reads. -/

section Reads

variable {file : File} {schema : Schema} {c : Catalog} {s : Session} {id : String} {n : Nat}
  {i : Instance} {e : Entry}

/-- The schema knows every field that the bindings go through, and its type has the
conversion of the field's. -/
theorem field?_of_mem_fieldsOf (h : file.schema = .ok schema) {f : DeclaredField}
    (hf : f ∈ fieldsOf file id) : ∃ spec, schema.field? (id, f.decl.name) = some spec
      ∧ (fieldType file f.decl).Implements file (.ofType spec.type) := by
  have hdeclared : file.Declares id := by
    by_contra hnot
    rw [fieldsOf_of_not_declares hnot] at hf
    cases hf
  have hkey : id ∈ schema.resources.keys := by
    rw [← ids_ofFile h]
    exact List.mem_map.2
      ⟨resourceOf file id, List.mem_map.2 ⟨id, mem_resourceIds.2 hdeclared, rfl⟩, rfl⟩
  obtain ⟨info, hinfo⟩ := Option.isSome_iff_exists.1 (Table.contains_iff_mem_keys.2 hkey)
  obtain ⟨spec, hbuild⟩ := built_of_schema h hf
  obtain ⟨⟨type, htype, ht⟩, -⟩ := buildField_eq_ok hbuild
  refine ⟨spec, ?_, ?_⟩
  · rw [Schema.field?, hinfo]
    exact (field?_iff h hinfo).2 ⟨f, hf, rfl, hbuild⟩
  · rw [fieldType, htype]
    exact HostType.implements_ofExpr ht

/-- A parameter has the type of a field of the file, or else that of any value. -/
theorem referenceType_eq_value_or (file : File) (id reference : String) :
    referenceType file id reference = .value
      ∨ ∃ f ∈ fieldsOf file ((splitReference reference).1.getD id),
        f.decl.name = (splitReference reference).2
          ∧ referenceType file id reference = fieldType file f.decl := by
  unfold referenceType
  cases hfind : (fieldsOf file ((splitReference reference).1.getD id)).find?
      fun f => f.decl.name == (splitReference reference).2 with
  | none => exact .inl (by simp only [hfind])
  | some f =>
    have hname : f.decl.name = (splitReference reference).2 := by
      simpa using List.find?_some hfind
    exact .inr ⟨f, List.mem_of_find?_eq_some hfind, hname, by simp only [hfind]⟩

/-- The value is a valid one of the field, in an instance of the resource. -/
def ValidAt (c : Catalog) (s : Session) (id field : String) (v : Value) : Prop :=
  ∃ n i e, s.instance? n = some i ∧ c.get id = .ok i.kind ∧ i.cache.get? field = some e
    ∧ e.valid = true ∧ e.data = v

/-- A valid value of a field is of the type that the schema gives the field. -/
theorem ValidAt.matchesType (hc : c.Loaded) (hkeeps : c.Keeps schema)
    (hs : Session.Reachable c s) {field : String} {v : Value} (hv : ValidAt c s id field v)
    {spec : FieldSpec} (hspec : schema.field? (id, field) = some spec) :
    v.matchesType spec.type = true := by
  obtain ⟨n, i, e, hi, hkind, he, hvalid, rfl⟩ := hv
  obtain ⟨own, hfield, htype⟩ := hkeeps.field?_of_get hspec hkind
  obtain ⟨own', hown', hfits⟩ := ((hs.wellTyped hc.sound).1.instances hi).2.entry he
  obtain rfl : own' = own := Option.some.inj (hown'.symm.trans hfield)
  rw [← htype]
  exact (hfits.valid hvalid).2

/-- What the type of a field makes of its valid values. -/
theorem cast_fieldType (h : file.schema = .ok schema) (hc : c.Loaded) (hkeeps : c.Keeps schema)
    (hs : Session.Reachable c s) {f : DeclaredField} (hf : f ∈ fieldsOf file id) :
    ∃ conversion, (fieldType file f.decl).Implements file conversion
      ∧ ∀ v, ValidAt c s id f.decl.name v → ∀ kind field, conversion.cast kind field v
        = ((fieldType file f.decl).refusal? conversion kind field v).elim (.ok v) .error := by
  obtain ⟨spec, hspec, himplements⟩ := field?_of_mem_fieldsOf h hf
  refine ⟨_, himplements, fun v hv => ?_⟩
  exact himplements.cast_eq (hv.matchesType hc hkeeps hs hspec)

/-- What the type of a parameter makes of the valid values of the field it refers to. -/
theorem cast_referenceType (h : file.schema = .ok schema) (hc : c.Loaded)
    (hkeeps : c.Keeps schema) (hs : Session.Reachable c s) (id reference : String) :
    ∃ conversion, (referenceType file id reference).Implements file conversion
      ∧ ∀ v, ValidAt c s ((splitReference reference).1.getD id) (splitReference reference).2 v →
        ∀ kind field, conversion.cast kind field v
          = ((referenceType file id reference).refusal? conversion kind field v).elim
              (.ok v) .error := by
  rcases referenceType_eq_value_or file id reference with htype | ⟨f, hf, hname, htype⟩
  · -- what is not in the file is handed on as it is
    rw [htype]
    have himplements : HostType.value.Implements file (.ofType .any) := .value
    have hany : ∀ v : Value, v.matchesType .any = true := fun v => by cases v <;> rfl
    exact ⟨_, himplements, fun v _ => himplements.cast_eq (hany v)⟩
  · rw [htype, ← hname]
    exact cast_fieldType h hc hkeeps hs hf

/-- Reading a valid entry gives its value and changes nothing. -/
theorem read_of_valid (hc : c.Loaded) (hs : Session.Reachable c s)
    (hi : s.instance? n = some i) {field : String} (he : i.cache.get? field = some e)
    (hvalid : e.valid = true) (conversion : Conversion) (fuel : Nat) (kind : String) :
    conversion.read (fuel + 1) n kind field s
      = some (conversion.cast kind field e.data, s) := by
  obtain ⟨spec, hspec, hfits⟩ := ((hs.wellTyped hc.sound).1.instances hi).2.entry he
  have hresult : i.cache.result? field = some (.ok e.data) := by
    rw [Cache.result?, he, Option.bind_some, Entry.result?, if_pos hvalid,
      (hfits.valid hvalid).1]
  have hrun : s.run (fuel + 1) (.field n field) = some (.ok e.data, s) :=
    Session.runOn_readField_of_result hi hspec hresult
  rw [Conversion.read, hrun]
  rfl

/-- **What typed readers are given for valid values.**  Take a file that the schema was
built from, and a session over kinds that keep the fields of the schema, in any state
that operations lead to.  The accessor of a field with a valid value gives the value and
changes nothing, but fails if the value is null and the accessor is not of the type of
any value.  The closure of a computed field that is handed valid values of the fields
it refers to hands them on, but fails if one of them is refused in this way. -/
theorem typed_read_of_valid (h : file.schema = .ok schema) (hc : c.Loaded)
    (hkeeps : c.Keeps schema) (hs : Session.Reachable c s) {r : Resource} (hr : r ∈ ofFile file) :
    (∀ a ∈ r.accessors, ∃ conversion, a.type.Implements file conversion
        ∧ ∀ n i e, s.instance? n = some i → c.get r.id = .ok i.kind →
          i.cache.get? a.field = some e → e.valid = true → ∀ fuel,
          conversion.read (fuel + 1) n i.kind.name a.field s
            = some ((a.type.refusal? conversion i.kind.name a.field e.data).elim
                (.ok e.data) .error, s))
      ∧ ∀ m ∈ r.computes, ∃ params : List (Param × Conversion),
        params.map Prod.fst = m.params ∧ (∀ e ∈ params, e.1.type.Implements file e.2)
          ∧ ∀ values, List.Forall₂ (fun e v => ValidAt c s
              ((splitReference e.1.reference).1.getD r.id) (splitReference e.1.reference).2 v)
            params values → ∀ kind, castAll kind params values
              = (firstRefusal? kind params values).elim (.ok values) .error := by
  obtain ⟨id, -, rfl⟩ := List.mem_map.1 hr
  constructor
  · intro a ha
    obtain ⟨f, hf, rfl⟩ := List.mem_map.1 ha
    obtain ⟨conversion, himplements, hcast⟩ := cast_fieldType h hc hkeeps hs hf
    refine ⟨conversion, himplements, fun n i e hi hkind he hvalid fuel => ?_⟩
    rw [read_of_valid hc hs hi he hvalid, hcast e.data ⟨n, i, e, hi, hkind, he, hvalid, rfl⟩]
    rfl
  · intro m hm
    obtain ⟨f, -, rfl⟩ := List.mem_map.1 hm
    -- the references of a method have conversions of their own, each for the field it names
    choose conversion himplements hcast using cast_referenceType h hc hkeeps hs id
    let param (reference : String) : Param × Conversion :=
      (⟨reference, referenceType file id reference⟩, conversion reference)
    refine ⟨f.decl.references.map param, ?_, ?_, fun values hvalues kind => ?_⟩
    · rw [List.map_map]
      rfl
    · intro e he
      obtain ⟨reference, -, rfl⟩ := List.mem_map.1 he
      exact himplements reference
    · refine castAll_eq (List.forall₂_map_left_iff.2 ?_)
      exact (List.forall₂_map_left_iff.1 hvalues).imp fun reference v hv =>
        hcast reference v hv kind reference

end Reads

section Sample

open LazyFields.Catalog (textFile schemaOf)

/-- A static field, and a field that is computed from it. -/
def passage : File := textFile false "r" [("path", none), ("size", some ["path"])] ∅

/-- The closure of the computed field, for a provider that gives back the path. -/
def sizeClosure : ComputeLogic := fun self values _ =>
  .done ((castAll self.kind [(⟨"path", .string⟩, .native .string)] values).map (·.headD .null))

def passageCatalog : Catalog :=
  (Catalog.ofSchema (schemaOf passage)).after (.bind "r" "size" sizeClosure)

/-- A session in which the resource was created with this path. -/
def atPath (v : Value) : Session :=
  Sample.after (.new passageCatalog ⟨1, 1, false, fun _ => none⟩ 0) (.create "r" (Table.ofList [("path", v)]))

theorem schema_passage : passage.schema = .ok (schemaOf passage) := by decide +kernel

theorem loaded_passageCatalog : passageCatalog.Loaded := by
  have hbind : (Catalog.ofSchema (schemaOf passage)).bind "r" "size" sizeClosure
      = .ok passageCatalog := by rfl
  have hstores : ∀ self values number, (sizeClosure self values number).StoresNothing :=
    fun _ _ _ => trivial
  exact .bind (.load .empty schema_passage) hstores hbind

theorem keeps_passageCatalog : passageCatalog.Keeps (schemaOf passage) := by
  refine Catalog.Keeps.after (Catalog.keeps_load fun {p own spec} hown _ => ?_) _
  have hnone : Catalog.empty.field? p = none := rfl
  rw [hnone] at hown
  cases hown

theorem mem_ofFile_passage : resourceOf passage "r" ∈ ofFile passage :=
  List.mem_map.2 ⟨"r", by decide +kernel, rfl⟩

/-- What the session has after the creation: one instance, with a valid path. -/
theorem atPath_spec {v : Value} {P : Value → Bool}
    (hcreated : ((Session.new passageCatalog ⟨1, 1, false, fun _ => none⟩ 0).run 20
      (.create "r" (Table.ofList [("path", v)]))).isSome)
    (hpath : (atPath v).publishedInstances.any (fun m => m.1 = 0
      && (m.2.cache.get? "path").any fun e => e.valid && P e.data) = true) :
    Session.Reachable passageCatalog (atPath v) ∧ ∃ i e, (atPath v).instance? 0 = some i
      ∧ passageCatalog.get "r" = .ok i.kind ∧ i.kind.name = "r"
      ∧ i.cache.get? "path" = some e ∧ e.valid = true ∧ P e.data = true := by
  obtain ⟨_, hrun⟩ := Sample.run_after _ _ hcreated
  have hreachable : Session.Reachable passageCatalog (atPath v) :=
    (Session.Reachable.new _ 0).run (by simp [Operation.Stores]) hrun
  obtain ⟨⟨n, i⟩, hi, hpath⟩ := List.any_eq_true.1 hpath
  simp only [Bool.and_eq_true, decide_eq_true_eq] at hpath
  obtain ⟨rfl, hpath⟩ := hpath
  obtain ⟨e, he, hvalid, hP⟩ : ∃ e, i.cache.get? "path" = some e ∧ e.valid = true
      ∧ P e.data = true := by
    simpa [Option.any_eq_true] using hpath
  -- the catalog has no other kind
  obtain ⟨⟨key, hkind⟩, -⟩ := Session.published_holds loaded_passageCatalog hreachable hi
  have hkeys : passageCatalog.kinds.keys = ["r"] := by decide +kernel
  obtain rfl : key = "r" := by
    have hkey := Table.contains_iff_mem_keys.1 (Option.isSome_iff_exists.2 ⟨_, hkind⟩)
    rw [hkeys] at hkey
    exact List.mem_singleton.1 hkey
  have hget : passageCatalog.get "r" = .ok i.kind := by
    rw [Catalog.get, Catalog.lookup?, hkind, Option.some_or]
  have hname : (passageCatalog.kinds.get? "r").map Kind.name = some "r" := by decide +kernel
  rw [hkind] at hname
  exact ⟨hreachable, i, e, Session.instance?_of_mem_publishedInstances hi, hget,
    Option.some.inj hname, he, hvalid, hP⟩

theorem typed_read_of_valid_path :
    passage.schema = .ok (schemaOf passage) ∧ passageCatalog.Loaded
      ∧ passageCatalog.Keeps (schemaOf passage)
      ∧ Session.Reachable passageCatalog (atPath (.string "/etc"))
      ∧ resourceOf passage "r" ∈ ofFile passage
      ∧ (∃ conversion, HostType.string.Implements passage conversion
        ∧ ∀ fuel, conversion.read (fuel + 1) 0 "r" "path" (atPath (.string "/etc"))
          = some (.ok (.string "/etc"), atPath (.string "/etc")))
      ∧ ∃ params, params.map Prod.fst = [⟨"path", .string⟩]
        ∧ ∀ kind, castAll kind params [.string "/etc"] = .ok [.string "/etc"] := by
  obtain ⟨hreachable, i, ⟨data, valid, error, time⟩, hi, hkind, hname, he, hvalid, hpath⟩ :=
    atPath_spec (v := .string "/etc") (P := fun v => Sample.isText "/etc" (.ok v))
      (by decide +kernel) (by decide +kernel)
  obtain rfl : data = .string "/etc" := Except.ok.inj (Sample.eq_of_isText hpath)
  obtain ⟨haccessors, hclosures⟩ := typed_read_of_valid schema_passage loaded_passageCatalog
    keeps_passageCatalog hreachable mem_ofFile_passage
  obtain ⟨conversion, himplements, hread⟩ :=
    haccessors ⟨"path", .string, ""⟩ (by decide +kernel)
  obtain ⟨params, hparams, -, hcast⟩ :=
    hclosures ⟨"size", .string, [⟨"path", .string⟩]⟩ (by decide +kernel)
  refine ⟨schema_passage, loaded_passageCatalog, keeps_passageCatalog, hreachable,
    mem_ofFile_passage, ⟨conversion, himplements, fun fuel => ?_⟩, params, hparams,
    fun kind => ?_⟩
  · rw [← hname]
    exact hread 0 i _ hi hkind he hvalid fuel
  · obtain ⟨⟨p, c⟩, rfl, rfl⟩ := List.map_eq_singleton_iff.1 hparams
    refine hcast [.string "/etc"] (.cons ?_ .nil) kind
    -- a name without a dot is a field of the resource itself
    have hsplit : splitReference "path" = (none, "path") := by decide +kernel
    show ValidAt _ _ ((splitReference "path").1.getD "r") (splitReference "path").2 _
    rw [hsplit]
    exact ⟨0, i, _, hi, hkind, he, hvalid, rfl⟩

/-- **A valid path that is null is not read.**  The accessor of the path asks for a text,
whose conversion fails.  So does that of the closure which refers to the path, and its
error is what is stored. -/
theorem null_is_not_read :
    passage.schema = .ok (schemaOf passage) ∧ passageCatalog.Loaded
      ∧ passageCatalog.Keeps (schemaOf passage)
      ∧ Session.Reachable passageCatalog (atPath .null)
      ∧ (∃ i e, (atPath .null).instance? 0 = some i ∧ passageCatalog.get "r" = .ok i.kind
        ∧ i.cache.get? "path" = some e ∧ e.valid = true ∧ e.data.isNull = true)
      ∧ (∃ r ∈ ofFile passage, ⟨"path", .string, ""⟩ ∈ r.accessors
        ∧ ⟨"size", .string, [⟨"path", .string⟩]⟩ ∈ r.computes)
      ∧ (∀ conversion, HostType.string.Implements passage conversion →
        ∀ fuel, conversion.read (fuel + 1) 0 "r" "path" (atPath .null)
          = some (.error (.cast "r" "path" "string" "null"), atPath .null))
      ∧ ∃ t, (atPath .null).run 20 (.compute 0 "size")
          = some (.error (.cast "r" "path" "string" "null"), t)
        ∧ t.slot? (0, "size") = some (.stored (.ofError (.cast "r" "path" "string" "null") 0)) := by
  obtain ⟨hreachable, i, ⟨data, valid, error, time⟩, hi, hkind, hname, he, hvalid, hnull⟩ :=
    atPath_spec (v := .null) (P := Value.isNull) (by decide +kernel) (by decide +kernel)
  have hcomputed : ((atPath .null).run 20 (.compute 0 "size")).map Prod.fst
      = some (.error (.cast "r" "path" "string" "null")) := by decide +kernel
  refine ⟨schema_passage, loaded_passageCatalog, keeps_passageCatalog, hreachable,
    ⟨i, _, hi, hkind, he, hvalid, hnull⟩,
    ⟨_, mem_ofFile_passage, by decide +kernel, by decide +kernel⟩, ?_,
    _, Sample.run_eq_after hcomputed, by rfl⟩
  obtain rfl : data = .null := by
    cases data <;> simp_all [Value.isNull]
  intro conversion himplements
  -- only the conversion of texts is implemented for the type
  cases himplements
  intro fuel
  rw [read_of_valid loaded_passageCatalog hreachable hi he hvalid]
  rfl

end Sample

end Bindings

end LazyFields
