/-
  LazyFields.Proofs.Bindings.Generator
  ────────────────────────────────
  **WHAT IS IMPORTED IS WHAT OCCURS.**

  The bindings can be written in one go: every type is noted when it is written, in
  the accessors, in the provider's methods and once more in the closures, and the
  imports are made from the notes in the end.

    · `Writes`             — what a writer gives, and which types it has written
    · `writes_resource`    — the lines of a resource, with the types in them
    · `generate_eq`        — all of it is the text of the bindings
    · `imports_match_types` — so there is an import for each type that needs one, and
                              no other
-/
import LazyFields.Proofs.Bindings.Methods

namespace LazyFields.Bindings

open LazyFields.Source

/-! ## §1. Notes. -/

/-- What the imports are made from: the packs whose types were written, and whether
times and maps were. -/
structure Noted where
  packs : NameSet
  time : Bool
  map : Bool
  deriving DecidableEq

namespace Noted

/-- Nothing was written yet. -/
def nothing : Noted := ⟨∅, false, false⟩

/-- What is noted of a type. -/
def note (n : Noted) : HostType → Noted
  | .map => { n with map := true }
  | .dateTime => { n with time := true }
  | .packWrapper pack _ => { n with packs := n.packs.insert pack () }
  | _ => n

/-- What is noted of some types, one after the other. -/
def noteAll (n : Noted) (ts : List HostType) : Noted := ts.foldl note n

variable (n : Noted) (ts : List HostType)

/-- Noting two lists is noting one after the other. -/
theorem noteAll_append (us : List HostType) :
    n.noteAll (ts ++ us) = (n.noteAll ts).noteAll us := List.foldl_append

/-- A map is noted if it was, or is among the types. -/
theorem map_noteAll : (n.noteAll ts).map = true ↔ n.map = true ∨ .map ∈ ts := by
  induction ts generalizing n with
  | nil => simp [noteAll]
  | cons t ts ih =>
    show ((n.note t).noteAll ts).map = true ↔ _
    rw [ih, List.mem_cons]
    cases t <;> simp [note]

/-- A time is noted if it was, or is among the types. -/
theorem time_noteAll : (n.noteAll ts).time = true ↔ n.time = true ∨ .dateTime ∈ ts := by
  induction ts generalizing n with
  | nil => simp [noteAll]
  | cons t ts ih =>
    show ((n.note t).noteAll ts).time = true ↔ _
    rw [ih, List.mem_cons]
    cases t <;> simp [note]

/-- A pack is noted if it was, or is that of a type. -/
theorem mem_packs_noteAll {pack : String} : pack ∈ (n.noteAll ts).packs.keys
    ↔ pack ∈ n.packs.keys ∨ ∃ t ∈ ts, t.pack? = some pack := by
  have hinsert : ∀ (packs : NameSet) other, pack ∈ (packs.insert other ()).keys
      ↔ pack ∈ packs.keys ∨ other = pack := by
    intro packs other
    rw [← Table.contains_iff_mem_keys, ← Table.contains_iff_mem_keys, Table.contains,
      Table.get?_insert]
    split <;> simp_all [Table.contains]
  induction ts generalizing n with
  | nil => simp [noteAll]
  | cons t ts ih =>
    refine (ih (n.note t)).trans ?_
    cases t <;> simp [note, HostType.pack?, hinsert, or_assoc]

end Noted

/-! ## §2. Writers. -/

/-- What is written goes with notes, and can be refused. -/
abbrev Writer := StateT Noted (Except Error)

/-- The writer gives the value and notes the types, whatever was noted before. -/
def Writes {α : Type} (w : Writer α) (a : α) (ts : List HostType) : Prop :=
  ∀ n, w.run n = .ok (a, n.noteAll ts)

section Writers

variable {α β : Type} {a : α} {b : β} {ts us : List HostType}

/-- What writes nothing notes nothing. -/
theorem Writes.pure (a : α) : Writes (pure a) a [] := fun _ => rfl

/-- Two parts note what either does. -/
theorem Writes.bind {w : Writer α} {f : α → Writer β} (hw : Writes w a ts)
    (hf : Writes (f a) b us) : Writes (w >>= f) b (ts ++ us) := by
  intro n
  rw [StateT.run_bind, hw n, n.noteAll_append]
  exact hf _

/-- What is made of the text notes nothing more. -/
theorem Writes.map {w : Writer α} (hw : Writes w a ts) (f : α → β) :
    Writes (f <$> w) (f a) ts := by
  intro n
  rw [StateT.run_map, hw n]
  rfl

/-- A part for every member of a list notes what each does. -/
theorem Writes.mapM {f : α → Writer β} {g : α → β} {types : α → List HostType} {xs : List α}
    (h : ∀ x ∈ xs, Writes (f x) (g x) (types x)) :
    Writes (xs.mapM f) (xs.map g) (xs.flatMap types) := by
  induction xs with
  | nil => exact .pure []
  | cons x xs ih =>
    have hrest := ih fun y hy => h y (List.mem_cons_of_mem x hy)
    rw [List.mapM_cons, List.flatMap_cons]
    refine (h x List.mem_cons_self).bind ?_
    rw [← List.append_nil (xs.flatMap types)]
    exact hrest.bind (.pure _)

end Writers

/-! ## §3. The generator. -/

section Generator

variable (file : File)

/-- Write the type that a name stands for. -/
def writeName (name : String) : Writer HostType :=
  match FieldType.primitive? name with
  | some .bool => pure .bool
  | some .int => pure .i64
  | some .float => pure .f64
  | some .string | some .regex => pure .string
  | some .time => do
    modify fun n => { n with time := true }
    pure .dateTime
  | some _ => pure .value
  | none =>
    if file.localNames.contains name then pure (.wrapper (wrapperOf name))
    else match file.packAndName? name with
      | some (pack, rest) => do
        modify fun n => { n with packs := n.packs.insert pack () }
        pure (.packWrapper pack (wrapperOf rest))
      | none => pure (.wrapper (wrapperOf name))

/-- Write the type that a type expression stands for. -/
def writeType : TypeExpr → Writer HostType
  | .named name => writeName file name
  | .list _ => pure .vec
  | .map _ _ => do
    modify fun n => { n with map := true }
    pure .map

/-- Write the type of a field; one without a type is refused. -/
def writeFieldType (f : FieldDecl) : Writer HostType :=
  match f.type with
  | some e => writeType file e
  | none => throw (Fault.ofField "" f.name .noType)

/-- Write the parameter of a reference in the resource `id`. -/
def writeParam (id reference : String) : Writer Param :=
  let (target, name) := splitReference reference
  let found := (fieldsOf file (target.getD id)).find? fun f => f.decl.name == name
  match found.bind fun f => f.decl.type with
  | some e => Param.mk reference <$> writeType file e
  | none => pure ⟨reference, .value⟩

/-- Write the accessor of a field. -/
def writeAccessor (f : DeclaredField) : Writer Accessor := do
  let t ← writeFieldType file f.decl
  pure ⟨f.decl.name, t, (Docs.ofComments f.comments).title⟩

/-- Write the method of a computed field: its type, and then its parameters. -/
def writeMethod (id : String) (f : DeclaredField) : Writer Compute := do
  let t ← writeFieldType file f.decl
  let params ← f.decl.references.mapM (writeParam file id)
  pure ⟨f.decl.name, t, params⟩

/-- The computed field without its type, as closures are written. -/
def Compute.untyped (c : Compute) : Compute := ⟨c.field, .value, c.params⟩

/-- Write the closure of a computed field; it casts the parameters once more, and leaves
out the type of the field. -/
def writeClosure (id : String) (f : DeclaredField) : Writer Compute := do
  let params ← f.decl.references.mapM (writeParam file id)
  pure ⟨f.decl.name, .value, params⟩

/-- Write the lines of a resource: the wrapper, the trait and the registration. -/
def writeResource (id : String) : Writer (List String) := do
  let computed := (fieldsOf file id).filter fun f => !f.decl.isStatic
  let accessors ← (fieldsOf file id).mapM (writeAccessor file)
  let methods ← computed.mapM (writeMethod file id)
  let closures ← computed.mapM (writeClosure file id)
  let bare : Resource := ⟨id, docsOf file id, [], []⟩
  pure ({ bare with accessors }.wrapperLines ++ { bare with computes := methods }.traitLines
    ++ { bare with computes := closures }.registerLines)

/-- The imports, from what was noted. -/
def notedImportLines (options : Options) (n : Noted) : List String :=
  let crate := options.runtimeCrate
  (if n.map then ["use std::collections::BTreeMap;"] else []) ++
  ["use std::sync::Arc;", ""] ++
  (if n.time then ["use " ++ crate ++ "::chrono::\x7bDateTime, Utc\x7d;"] else []) ++
  ["use " ++ crate
     ++ "::runtime::\x7bArgs, FromValue, InitOutcome, Registry, Resource, Runtime, Value\x7d;",
   "use " ++ crate ++ "::Result;"] ++
  n.packs.keys.filterMap fun pack =>
    (file.packs.get? pack).map fun p => "use " ++ p.modulePath ++ " as " ++ pack ++ ";"

/-- Write the bindings of a file: its resources first, and then what stands before
them. -/
def generate (options : Options) : Except Error String := do
  let schema ← file.schema
  let (bodies, noted) ← ((resourceIds file).mapM (writeResource file)).run .nothing
  pure (lines
    ([options.header, ""] ++ notedImportLines file options noted ++ [""] ++
     (if options.embedSchema then schemaLines schema else []) ++
     providerLines (ofFile file) ++ bodies.flatten))

end Generator

/-! ## §4. What is written. -/

section Written

variable {file : File} {s : Schema} {id : String}

/-- **Every name is noted as the type that it stands for.** -/
theorem writes_name (name : String) :
    Writes (writeName file name) (HostType.ofName file name) [HostType.ofName file name] := by
  unfold writeName HostType.ofName
  cases FieldType.primitive? name with
  | some t => cases t <;> exact fun n => rfl
  | none =>
    dsimp only
    split
    · exact fun n => rfl
    · cases file.packAndName? name <;> exact fun n => rfl

/-- Writing a type notes it. -/
theorem writes_type (e : TypeExpr) :
    Writes (writeType file e) (HostType.ofExpr file e) [HostType.ofExpr file e] := by
  cases e with
  | named name => exact writes_name name
  | list _ => exact fun n => rfl
  | map _ _ => exact fun n => rfl

/-- The field has a type. -/
def IsTyped (f : DeclaredField) : Prop := ∃ e, f.decl.type = some e

/-- Fields without a type get into no schema. -/
theorem isTyped_of_mem_fieldsOf (h : file.schema = .ok s) {f : DeclaredField}
    (hf : f ∈ fieldsOf file id) : IsTyped f := by
  obtain ⟨spec, hbuild⟩ := built_of_schema h hf
  obtain ⟨⟨e, he, -⟩, -⟩ := buildField_eq_ok hbuild
  exact ⟨e, he⟩

/-- Writing the type of a field notes it. -/
theorem writes_fieldType {f : DeclaredField} (hf : IsTyped f) :
    Writes (writeFieldType file f.decl) (fieldType file f.decl) [fieldType file f.decl] := by
  obtain ⟨e, he⟩ := hf
  rw [writeFieldType, fieldType, he]
  exact writes_type e

/-- What is not in the file is written as any value, of which nothing is noted. -/
theorem writes_param (h : file.schema = .ok s) (reference : String) :
    Writes (writeParam file id reference) ⟨reference, referenceType file id reference⟩
      [referenceType file id reference] := by
  unfold writeParam referenceType
  dsimp only
  cases hfound : (fieldsOf file ((splitReference reference).1.getD id)).find?
      fun f => f.decl.name == (splitReference reference).2 with
  | none => exact fun n => rfl
  | some f =>
    obtain ⟨e, he⟩ := isTyped_of_mem_fieldsOf h (List.mem_of_find?_eq_some hfound)
    simp only [Option.bind_some, he, fieldType, Option.map_some, Option.getD_some]
    exact (writes_type e).map (Param.mk reference)

/-- The types of a field's parameters. -/
def paramTypes (file : File) (id : String) (f : DeclaredField) : List HostType :=
  (computeOf file id f).params.map Param.type

/-- Writing parameters notes the types of what they refer to. -/
theorem writes_params (h : file.schema = .ok s) (f : DeclaredField) :
    Writes (f.decl.references.mapM (writeParam file id)) (computeOf file id f).params
      (paramTypes file id f) := by
  have htypes : paramTypes file id f
      = f.decl.references.flatMap fun r => [referenceType file id r] := by
    rw [← List.map_eq_flatMap]
    exact List.map_map
  rw [htypes]
  exact .mapM fun reference _ => writes_param h reference

/-- Writing an accessor notes the type of its field. -/
theorem writes_accessor {f : DeclaredField} (hf : IsTyped f) :
    Writes (writeAccessor file f) (accessorOf file f) [fieldType file f.decl] :=
  (writes_fieldType hf).bind (.pure _)

/-- Writing a method notes the type of its field and those of its parameters. -/
theorem writes_method (h : file.schema = .ok s) {f : DeclaredField} (hf : IsTyped f) :
    Writes (writeMethod file id f) (computeOf file id f)
      (fieldType file f.decl :: paramTypes file id f) := by
  rw [← List.append_nil (paramTypes file id f)]
  exact (writes_fieldType hf).bind ((writes_params h f).bind (.pure _))

/-- Writing a closure notes the types of its parameters once more. -/
theorem writes_closure (h : file.schema = .ok s) (f : DeclaredField) :
    Writes (writeClosure file id f) (computeOf file id f).untyped
      (paramTypes file id f) := by
  rw [← List.append_nil (paramTypes file id f)]
  exact (writes_params h f).bind (.pure _)

/-- The types in the closures of a resource. -/
def Resource.closureTypes (r : Resource) : List HostType :=
  r.computes.flatMap fun c => c.params.map Param.type

/-- The three parts of a resource are written one by one. -/
theorem Resource.lines_eq (r : Resource) : r.lines
    = (Resource.mk r.id r.docs r.accessors []).wrapperLines
      ++ (Resource.mk r.id r.docs [] r.computes).traitLines
      ++ (Resource.mk r.id r.docs [] (r.computes.map Compute.untyped)).registerLines := by
  have hclosures : r.computes.flatMap (Compute.bindLines r.wrapper)
      = (r.computes.map Compute.untyped).flatMap (Compute.bindLines r.wrapper) := by
    rw [List.flatMap_map]
    rfl
  unfold Resource.lines Resource.registerLines
  dsimp only
  rw [hclosures]
  rfl

/-- **The lines of a resource are written, and all types in them noted.** -/
theorem writes_resource (h : file.schema = .ok s) (id : String) :
    Writes (writeResource file id) (resourceOf file id).lines
      ((resourceOf file id).types ++ (resourceOf file id).closureTypes) := by
  let computed := (fieldsOf file id).filter fun f => !f.decl.isStatic
  have htyped : ∀ f ∈ fieldsOf file id, IsTyped f := fun f hf => isTyped_of_mem_fieldsOf h hf
  have haccessors : Writes ((fieldsOf file id).mapM (writeAccessor file))
      (resourceOf file id).accessors ((resourceOf file id).accessors.map Accessor.type) := by
    have htypes : (resourceOf file id).accessors.map Accessor.type
        = (fieldsOf file id).flatMap fun f => [fieldType file f.decl] := by
      rw [← List.map_eq_flatMap]
      exact List.map_map
    rw [htypes]
    exact .mapM fun f hf => writes_accessor (htyped f hf)
  have hmethods : Writes (computed.mapM (writeMethod file id)) (resourceOf file id).computes
      ((resourceOf file id).computes.flatMap fun c => c.type :: c.params.map Param.type) := by
    show Writes _ (computed.map (computeOf file id)) ((computed.map (computeOf file id)).flatMap _)
    rw [List.flatMap_map]
    exact .mapM fun f hf => writes_method h (htyped f (List.mem_of_mem_filter hf))
  have hclosures : Writes (computed.mapM (writeClosure file id))
      ((resourceOf file id).computes.map Compute.untyped)
      (resourceOf file id).closureTypes := by
    show Writes _ ((computed.map (computeOf file id)).map _)
      ((computed.map (computeOf file id)).flatMap _)
    rw [List.flatMap_map, List.map_map]
    exact .mapM fun f _ => writes_closure h f
  -- the types are noted in the order in which the three groups are written
  have htypes : (resourceOf file id).types ++ (resourceOf file id).closureTypes
      = (resourceOf file id).accessors.map Accessor.type
        ++ ((resourceOf file id).computes.flatMap (fun c => c.type :: c.params.map Param.type)
          ++ ((resourceOf file id).closureTypes ++ [])) := by
    rw [Resource.types, List.append_nil, List.append_assoc]
  unfold writeResource
  rw [Resource.lines_eq, htypes]
  refine haccessors.bind ?_
  refine hmethods.bind ?_
  exact hclosures.bind (.pure _)

/-- The types that are written for a file, in order. -/
def typesWritten (file : File) : List HostType :=
  (resourceIds file).flatMap fun id =>
    (resourceOf file id).types ++ (resourceOf file id).closureTypes

/-- The types that the generator writes are those in the bindings. -/
theorem mem_typesWritten {t : HostType} : t ∈ typesWritten file ↔ t ∈ typesIn (ofFile file) := by
  have hclosure : ∀ r : Resource, t ∈ r.closureTypes → t ∈ r.types := by
    intro r ht
    obtain ⟨c, hc, ht⟩ := List.mem_flatMap.1 ht
    exact List.mem_append_right _ (List.mem_flatMap.2 ⟨c, hc, List.mem_cons_of_mem _ ht⟩)
  rw [typesWritten, typesIn, ofFile, List.flatMap_map, List.mem_flatMap, List.mem_flatMap]
  refine exists_congr fun id => and_congr_right fun _ => ?_
  rw [List.mem_append]
  exact or_iff_left_of_imp (hclosure _)

/-- Sets are equal when their names are. -/
theorem eq_of_mem_keys {ks ls : NameSet} (h : ∀ k, k ∈ ks.keys ↔ k ∈ ls.keys) : ks = ls := by
  refine Table.ext_get? fun k => ?_
  have hk := h k
  rw [← Table.contains_iff_mem_keys, ← Table.contains_iff_mem_keys, Table.contains,
    Table.contains] at hk
  cases hks : ks.get? k <;> cases hls : ls.get? k <;> simp_all

/-- **What is noted of a file is what occurs in it.** -/
theorem noteAll_typesWritten (file : File) :
    Noted.nothing.noteAll (typesWritten file)
      = ⟨Table.ofNames ((typesIn (ofFile file)).filterMap HostType.pack?),
        (typesIn (ofFile file)).contains .dateTime, (typesIn (ofFile file)).contains .map⟩ := by
  have hoccurs : ∀ t, t ∈ typesWritten file ↔ t ∈ typesIn (ofFile file) := fun t => mem_typesWritten
  have hpacks : (Noted.nothing.noteAll (typesWritten file)).packs
      = Table.ofNames ((typesIn (ofFile file)).filterMap HostType.pack?) := by
    refine eq_of_mem_keys fun pack => ?_
    rw [Noted.mem_packs_noteAll, Table.mem_keys_ofNames, List.mem_filterMap]
    simp only [hoccurs]
    exact or_iff_right_of_imp fun hnone => absurd hnone List.not_mem_nil
  have htime : (Noted.nothing.noteAll (typesWritten file)).time
      = (typesIn (ofFile file)).contains .dateTime := by
    rw [Bool.eq_iff_iff, Noted.time_noteAll, List.contains_iff_mem, hoccurs]
    simp [Noted.nothing]
  have hmap : (Noted.nothing.noteAll (typesWritten file)).map
      = (typesIn (ofFile file)).contains .map := by
    rw [Bool.eq_iff_iff, Noted.map_noteAll, List.contains_iff_mem, hoccurs]
    simp [Noted.nothing]
  rw [← hpacks, ← htime, ← hmap]

/-- **The generator writes the text of the bindings.** -/
theorem generate_eq (options : Options) (file : File) :
    generate file options = file.schema.map (text options file) := by
  cases h : file.schema with
  | error e =>
    unfold generate
    rw [h]
    rfl
  | ok s =>
    have hbodies : Writes ((resourceIds file).mapM (writeResource file))
        ((resourceIds file).map fun id => (resourceOf file id).lines) (typesWritten file) :=
      .mapM fun id _ => writes_resource h id
    have hlines : ((resourceIds file).map fun id => (resourceOf file id).lines).flatten
        = (ofFile file).flatMap Resource.lines := by
      rw [ofFile, List.flatMap_map, List.flatMap_def]
    unfold generate
    rw [h]
    show (((resourceIds file).mapM (writeResource file)).run .nothing >>= _) = _
    rw [hbodies, noteAll_typesWritten]
    show Except.ok (lines (_ ++ List.flatten _)) = Except.ok (text options file s)
    rw [hlines]
    rfl

end Written

/-! ## §5. Types that occur. -/

/-- The type is written in the bindings of a file: as that of an accessor, of a
provider's method, or of a parameter. -/
inductive Emitted (file : File) : HostType → Prop
  | accessor {r a} : r ∈ ofFile file → a ∈ r.accessors → Emitted file a.type
  | method {r c} : r ∈ ofFile file → c ∈ r.computes → Emitted file c.type
  | parameter {r c p} : r ∈ ofFile file → c ∈ r.computes → p ∈ c.params → Emitted file p.type

section Emitted

variable {file : File} {s : Schema} {id : String} {t : HostType}

/-- The types in the bindings are those that are emitted. -/
theorem mem_typesIn_iff : t ∈ typesIn (ofFile file) ↔ Emitted file t := by
  constructor
  · intro ht
    obtain ⟨r, hr, ht⟩ := List.mem_flatMap.1 ht
    rcases List.mem_append.1 ht with ht | ht
    · obtain ⟨a, ha, rfl⟩ := List.mem_map.1 ht
      exact .accessor hr ha
    · obtain ⟨c, hc, ht⟩ := List.mem_flatMap.1 ht
      rcases List.mem_cons.1 ht with rfl | ht
      · exact .method hr hc
      · obtain ⟨p, hp, rfl⟩ := List.mem_map.1 ht
        exact .parameter hr hc hp
  · intro ht
    unfold typesIn Resource.types
    cases ht with
    | accessor hr ha =>
      exact List.mem_flatMap.2 ⟨_, hr, List.mem_append_left _ (List.mem_map_of_mem ha)⟩
    | method hr hc =>
      exact List.mem_flatMap.2 ⟨_, hr, List.mem_append_right _
        (List.mem_flatMap.2 ⟨_, hc, List.mem_cons_self⟩)⟩
    | parameter hr hc hp =>
      exact List.mem_flatMap.2 ⟨_, hr, List.mem_append_right _
        (List.mem_flatMap.2 ⟨_, hc, List.mem_cons_of_mem _ (List.mem_map_of_mem hp)⟩)⟩

/-- The type of a field stands for a type that the schema knows. -/
theorem fieldType_eq_ofExpr (h : file.schema = .ok s) {f : DeclaredField}
    (hf : f ∈ fieldsOf file id) :
    ∃ e u, typeOf file e = .ok u ∧ fieldType file f.decl = HostType.ofExpr file e := by
  obtain ⟨spec, hbuild⟩ := built_of_schema h hf
  obtain ⟨⟨e, he, htype⟩, -⟩ := buildField_eq_ok hbuild
  exact ⟨e, spec.type, htype, by rw [fieldType, he]; rfl⟩

/-- **What is written stands for a type that the schema knows,** or for any value. -/
theorem ofExpr_of_emitted (h : file.schema = .ok s) (ht : Emitted file t) :
    t = .value ∨ ∃ e u, typeOf file e = .ok u ∧ t = HostType.ofExpr file e := by
  cases ht with
  | accessor hr ha =>
    obtain ⟨id, -, rfl⟩ := List.mem_map.1 hr
    obtain ⟨f, hf, rfl⟩ := List.mem_map.1 ha
    exact .inr (fieldType_eq_ofExpr h hf)
  | method hr hc =>
    obtain ⟨id, -, rfl⟩ := List.mem_map.1 hr
    obtain ⟨f, hf, rfl⟩ := List.mem_map.1 hc
    exact .inr (fieldType_eq_ofExpr h (List.mem_of_mem_filter hf))
  | parameter hr hc hp =>
    obtain ⟨id, -, rfl⟩ := List.mem_map.1 hr
    obtain ⟨f, -, rfl⟩ := List.mem_map.1 hc
    obtain ⟨reference, -, rfl⟩ := List.mem_map.1 hp
    show referenceType file id reference = .value ∨ _
    unfold referenceType
    dsimp only
    split
    · next hfound => exact .inr (fieldType_eq_ofExpr h (List.mem_of_find?_eq_some hfound))
    · exact .inl rfl

/-- The types that are not those of resources. -/
def HostType.builtIns : List HostType := [bool, i64, f64, string, dateTime, value, vec, map]

/-- What a type that the schema knows is written as. -/
inductive HostType.Known (file : File) : HostType → Prop
  | builtIn {t : HostType} : t ∈ builtIns → Known file t
  | declared {d : Declaration} : d ∈ file.resources → Known file (.wrapper (wrapperOf d.id))
  | packed {pack rest : String} {p : Pack} : file.packs.get? pack = some p →
      Known file (.packWrapper pack (wrapperOf rest))

/-- What a primitive type is written as is built in. -/
theorem ofPrimitive_mem_builtIns (u : FieldType) : HostType.ofPrimitive u ∈ HostType.builtIns := by
  cases u <;> simp [HostType.ofPrimitive, HostType.builtIns]

/-- A name with a meaning is written as a type that is known. -/
theorem known_ofName {name : String} {u : FieldType} (h : NameMeans file file.FromPack name u) :
    (HostType.ofName file name).Known file := by
  cases h with
  | primitive hprim =>
    rw [ofName_of_primitive hprim]
    exact .builtIn (ofPrimitive_mem_builtIns u)
  | declared hprim hdeclared =>
    rw [ofName_of_declared hprim hdeclared]
    obtain ⟨d, hd, rfl⟩ := hdeclared
    exact .declared hd
  | packed hprim hdeclared hpacked =>
    obtain ⟨pack, p, rfl, hdot, hpack, -⟩ := hpacked
    rw [ofName_of_packed hprim hdeclared hdot hpack]
    exact .packed hpack

/-- **Every type that is written is known.** -/
theorem known_of_emitted (h : file.schema = .ok s) (ht : Emitted file t) : t.Known file := by
  rcases ofExpr_of_emitted h ht with rfl | ⟨e, u, htype, rfl⟩
  · exact .builtIn (by decide)
  · cases typeOf_eq_ok_iff.1 htype with
    | named hname => exact known_ofName hname
    | list _ => exact .builtIn (show HostType.vec ∈ HostType.builtIns by decide)
    | map _ _ => exact .builtIn (show HostType.map ∈ HostType.builtIns by decide)

/-- The pack of a type is one of the file's. -/
theorem exists_pack_of_emitted (h : file.schema = .ok s) (ht : Emitted file t) {pack : String}
    (hpack : t.pack? = some pack) : ∃ p, file.packs.get? pack = some p := by
  have hnone : ∀ u ∈ HostType.builtIns, u.pack? = none := by decide
  cases known_of_emitted h ht with
  | builtIn hbuilt =>
    rw [hnone t hbuilt] at hpack
    cases hpack
  | declared _ => cases hpack
  | packed hp =>
    cases hpack
    exact ⟨_, hp⟩

/-- No name is folded into one with an angle bracket. -/
theorem bracket_not_mem_wrapperOf {name : String} (h : IsSpelled name) :
    '<' ∉ (wrapperOf name).toList := by
  have hname : '<' ∉ name.toList := by
    obtain ⟨c, cs, hlist, hc⟩ := h
    rw [hlist]
    intro hmem
    rcases List.mem_cons.1 hmem with rfl | hmem
    · exact absurd hc (by decide)
    · exact absurd (isNameChar_of_mem_nameTail cs _ hmem) (by decide)
  -- camel case changes the case of letters, so in upper case the bracket would be one of the name's
  have hcamel : '<' ∉ (camelCase name).toList := by
    intro hmem
    have hupper := List.mem_map_of_mem (f := Char.toUpper) hmem
    rw [toList_camelCase, map_toUpper_camel] at hupper
    obtain ⟨c, hc, heq⟩ := List.mem_map.1 hupper
    by_cases hlower : c.isLower = true
    · have hletter : c.toUpper.isAlpha = true := by simp [Char.isAlpha, hlower]
      rw [heq] at hletter
      exact absurd hletter (by decide)
    · rw [Char.toUpper_eq_of_not_isLower hlower] at heq
      subst heq
      exact hname (List.mem_of_mem_filter hc)
  by_cases hreserved : camelCase name ∈ reservedTypes
  · rw [wrapperOf_of_mem hreserved, String.toList_append, List.mem_append, not_or]
    exact ⟨by decide, hcamel⟩
  · rwa [wrapperOf_of_not_mem hreserved]

/-- If resources have spelled names, maps and times can be told from other types by how
they are written. -/
theorem text_eq_iff (h : file.schema = .ok s) (hspelled : ∀ d ∈ file.resources, IsSpelled d.id)
    (ht : Emitted file t) : ∀ u ∈ [HostType.map, .dateTime], t.text = u.text ↔ t = u := by
  have hapart : ∀ u ∈ [HostType.map, .dateTime],
      ('<' ∈ u.text.toList ∧ ':' ∉ u.text.toList)
        ∧ ∀ v ∈ HostType.builtIns, v.text = u.text → v = u := by
    decide
  intro u hu
  refine ⟨fun htext => ?_, fun heq => heq ▸ rfl⟩
  obtain ⟨hmarks, hbuiltIns⟩ := hapart u hu
  cases known_of_emitted h ht with
  | builtIn hbuilt => exact hbuiltIns t hbuilt htext
  | declared hd =>
    rw [← htext] at hmarks
    exact absurd hmarks.1 (bracket_not_mem_wrapperOf (hspelled _ hd))
  | packed hp =>
    rw [← htext] at hmarks
    exact absurd (by simp [HostType.text]) hmarks.2

end Emitted

/-! ## §6. Imports. -/

/-- The line that imports the bindings of a pack under its name. -/
def packLine (e : String × String) : String := "use " ++ e.1 ++ " as " ++ e.2 ++ ";"

/-- The packs that some items import, by the modules of their bindings. -/
def packImports (file : File) (rs : List Resource) : List (String × String) :=
  (packsIn rs).filterMap fun pack => (file.packs.get? pack).map fun p => (p.modulePath, pack)

/-- The imports of a file's bindings, of items and of packs: those that a type needs
which is written, and the rest whatever is written. -/
structure ImportsMatch (file : File) (crate : String) (items : List (String × List String))
    (packs : List (String × String)) : Prop where
  map : ("std::collections", ["BTreeMap"]) ∈ items ↔ Emitted file .map
  time : (crate ++ "::chrono", ["DateTime", "Utc"]) ∈ items ↔ Emitted file .dateTime
  /-- No pack is imported twice. -/
  once : (packs.map Prod.snd).Nodup
  /-- A pack is imported if a type of it is written, and from its own module. -/
  pack : ∀ path pack, (path, pack) ∈ packs ↔ (∃ t, Emitted file t ∧ t.pack? = some pack)
    ∧ ∃ p, file.packs.get? pack = some p ∧ p.modulePath = path
  found : ∀ t, Emitted file t → ∀ pack, t.pack? = some pack →
    ∃ p, file.packs.get? pack = some p

section Imports

variable {file : File} {s : Schema}

/-- A line for every imported pack. -/
theorem packLines_eq (file : File) (rs : List Resource) :
    packLines file rs = (packImports file rs).map packLine := by
  unfold packLines packImports packLine
  rw [List.map_filterMap]
  refine List.filterMap_congr fun pack _ => ?_
  rw [Option.map_map]
  rfl

/-- No other import has the items of these two. -/
theorem mem_imported_iff (crate : String) (types : List HostType) :
    (("std::collections", ["BTreeMap"]) ∈ imported crate types ↔ .map ∈ types)
      ∧ ((crate ++ "::chrono", ["DateTime", "Utc"]) ∈ imported crate types
        ↔ .dateTime ∈ types) := by
  unfold imported
  by_cases hmap : HostType.map ∈ types <;> by_cases htime : HostType.dateTime ∈ types <;>
    simp [hmap, htime]

/-- What is imported is what the emitted types need. -/
theorem importsMatch_of_schema (h : file.schema = .ok s) (crate : String) :
    ImportsMatch file crate (imported crate (typesIn (ofFile file)))
      (packImports file (ofFile file)) where
  map := by
    rw [← mem_typesIn_iff]
    exact (mem_imported_iff crate _).1
  time := by
    rw [← mem_typesIn_iff]
    exact (mem_imported_iff crate _).2
  once := by
    have hnames : (packImports file (ofFile file)).map Prod.snd
        = (packsIn (ofFile file)).filter fun pack => (file.packs.get? pack).isSome := by
      unfold packImports
      rw [List.map_filterMap, ← List.filterMap_eq_filter]
      refine List.filterMap_congr fun pack _ => ?_
      cases hp : file.packs.get? pack <;> simp [hp, Option.guard]
    rw [hnames]
    exact (Table.nodup_keys _).filter _
  pack path pack := by
    have hpacks : pack ∈ packsIn (ofFile file) ↔ ∃ t, Emitted file t ∧ t.pack? = some pack := by
      rw [packsIn, Table.mem_keys_ofNames, List.mem_filterMap]
      simp only [mem_typesIn_iff]
    rw [← hpacks, packImports, List.mem_filterMap]
    constructor
    · rintro ⟨other, hother, hentry⟩
      obtain ⟨p, hp, heq⟩ := Option.map_eq_some_iff.1 hentry
      cases heq
      exact ⟨hother, p, hp, rfl⟩
    · rintro ⟨hpack, p, hp, rfl⟩
      exact ⟨pack, hpack, by rw [hp]; rfl⟩
  found t ht pack hpack := exists_pack_of_emitted h ht hpack

/-- Nothing is imported by the lines of a resource. -/
theorem beginning_use_lines (r : Resource) : beginning "use " r.lines = [] := by
  have hdocs : ∀ fallback, beginning "use " (commentLines r.docs fallback) = [] :=
    Resource.beginning_commentLines rfl (by decide) r.docs
  have haccessor : ∀ a : Accessor, beginning "use " a.lines = [] :=
    Resource.beginning_accessorLines_eq_nil rfl (by decide)
  have hmethod : ∀ c : Compute, beginning "use " (c.traitLines r.wrapper) = [] :=
    Resource.beginning_traitLines_eq_nil rfl (by decide) r.wrapper
  have hbind : ∀ c : Compute, beginning "use " (c.bindLines r.wrapper) = [] :=
    Resource.beginning_bindLines_eq_nil rfl (by decide) r.wrapper
  unfold Resource.lines Resource.wrapperLines Resource.traitLines Resource.registerLines
  simp (disch := first
      | (refine begins_text rfl rfl ?_; decide)
      | (refine begins_start rfl rfl ?_ _; decide))
    only [beginning_append, hdocs, beginning_flatMap_eq_nil _ haccessor,
      beginning_flatMap_eq_nil _ hmethod, beginning_flatMap_eq_nil _ hbind, beginning_cons_of_not,
      beginning_nil, String.append_assoc]
  rfl

/-- No line about providers is an import. -/
theorem beginning_use_providerLines (rs : List Resource) :
    beginning "use " (providerLines rs) = [] := by
  have hcalls : beginning "use " (rs.map _) = [] :=
    Resource.beginning_registrations_eq_nil rfl (by decide) rs
  unfold providerLines
  dsimp only
  rw [beginning_append, beginning_append, hcalls]
  simp (disch := first
      | (refine begins_text rfl rfl ?_; decide)
      | (refine begins_start rfl rfl ?_ _; decide))
    only [beginning_cons_of_not, beginning_nil, String.append_assoc]
  rfl

/-- No line of the embedded schema is an import. -/
theorem beginning_use_schemaLines (s : Schema) : beginning "use " (schemaLines s) = [] := by
  unfold schemaLines
  simp (disch := first
      | (refine begins_text rfl rfl ?_; decide)
      | (refine begins_start rfl rfl ?_ _; decide))
    only [beginning_cons_of_not, beginning_nil, String.append_assoc]

/-- **The imports match the types that occur.**  The text of the bindings is what the
generator writes that notes the types as it goes.  Its imports stand behind the header;
maps and times are imported exactly if they occur in the items of a resource, and a
pack, once and from its module, exactly if a type of it does. -/
theorem imports_match_types {options : Compilation.Options} {c : Compilation}
    (h : Compilation.ofResolved options file = .ok c) :
    generate file options.bindings = .ok c.code
      ∧ (∃ (header rest : List String) (items : List (String × List String))
          (packs : List (String × String)),
        c.code = lines ([options.bindings.header, ""] ++ header ++ [""] ++ rest)
          ∧ (∃ before, rest = before ++ (ofFile file).flatMap Resource.lines)
          ∧ beginning "use " rest = []
          ∧ beginning "use " header = items.map useLine ++ packs.map packLine
          ∧ ImportsMatch file options.bindings.runtimeCrate items packs)
      ∧ (∀ r ∈ ofFile file, r.Written)
      ∧ ((∀ d ∈ file.resources, IsSpelled d.id) → ∀ t, Emitted file t →
        ∀ u ∈ [HostType.map, .dateTime], t.text = u.text ↔ t = u) := by
  obtain ⟨hschema, hcode⟩ := parts_of_compilation h
  refine ⟨?_, ?_, fun r _ => r.written, fun hspelled t ht => text_eq_iff hschema hspelled ht⟩
  · rw [generate_eq, hschema, hcode]
    rfl
  · refine ⟨importLines options.bindings file (ofFile file),
      (if options.bindings.embedSchema then schemaLines c.schema else [])
        ++ (providerLines (ofFile file) ++ (ofFile file).flatMap Resource.lines),
      imported options.bindings.runtimeCrate (typesIn (ofFile file)),
      packImports file (ofFile file), ?_, ⟨_, (List.append_assoc ..).symm⟩, ?_, ?_,
      importsMatch_of_schema hschema _⟩
    · rw [hcode]
      simp only [text, List.append_assoc]
    -- only the lines of the imports begin with this word
    · rw [beginning_append, beginning_append, beginning_use_providerLines,
        beginning_flatMap_eq_nil _ beginning_use_lines]
      split
      · rw [beginning_use_schemaLines]
        rfl
      · rfl
    · rw [beginning_importLines, packLines_eq]

end Imports

/-- The bindings of the example import maps and a pack, and no times. -/
theorem imports_match_types_directory : ∃ c,
    Compilation.ofResolved .default directory = .ok c
      ∧ generate directory Compilation.Options.default.bindings = .ok c.code
      ∧ Emitted directory .map ∧ ¬ Emitted directory .dateTime
      ∧ Emitted directory (.packWrapper "core" "User")
      ∧ ∃ (header rest : List String) (items : List (String × List String))
          (packs : List (String × String)),
        c.code = lines (["// Code generated by lr. DO NOT EDIT.", ""] ++ header ++ [""] ++ rest)
          ∧ beginning "use " header = items.map useLine ++ packs.map packLine
          ∧ ("std::collections", ["BTreeMap"]) ∈ items
          ∧ ("lr::chrono", ["DateTime", "Utc"]) ∉ items
          ∧ ("crate::core", "core") ∈ packs := by
  obtain ⟨hgenerate, ⟨header, rest, items, packs, hcode, -, -, himports, hmatch⟩, -⟩ :=
    imports_match_types compiled_directory
  have htypes : (typesIn (ofFile directory)).contains .map
      ∧ (typesIn (ofFile directory)).contains .dateTime = false
      ∧ (typesIn (ofFile directory)).contains (.packWrapper "core" "User") := by decide +kernel
  have hmap : Emitted directory .map := mem_typesIn_iff.1 (List.contains_iff_mem.1 htypes.1)
  have htime : ¬ Emitted directory .dateTime := fun ht => by
    have hcontains := List.contains_iff_mem.2 (mem_typesIn_iff.2 ht)
    rw [htypes.2.1] at hcontains
    cases hcontains
  have hpack : Emitted directory (.packWrapper "core" "User") :=
    mem_typesIn_iff.1 (List.contains_iff_mem.1 htypes.2.2)
  refine ⟨_, compiled_directory, hgenerate, hmap, htime, hpack, header, rest, items, packs, hcode, himports,
    hmatch.map.2 hmap, fun hitem => htime (hmatch.time.1 hitem), ?_⟩
  exact (hmatch.pack "crate::core" "core").2
    ⟨⟨_, hpack, rfl⟩, ⟨Table.ofNames ["user"], "crate::core"⟩, rfl, rfl⟩

end LazyFields.Bindings
