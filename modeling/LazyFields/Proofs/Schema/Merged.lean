/-
  LazyFields.Proofs.Schema.Merged
  ────────────────────────────────
  **WHAT THE DECLARATIONS OF A FILE COME TO.**

  A schema is built in one pass over the declarations, and each of them is
  either joined to what stood before it or refused.  Two things are said about
  every stage of the pass:

    · `Says` — a resource has the fields, the constructor and the standing of
      an extension that its declarations give it TOGETHER, and nothing else
    · `Compatible` — what a declaration may not have in common with an earlier
      one of the same resource

  A declaration alone is built when its names mean something and its own
  fields and arguments are in order (`buildDeclaration_isOk_iff`); the pass
  succeeds when all are built and every two are compatible
  (`addDeclarations_isOk_iff`), and then its resources say what their
  declarations say (`merged_addDeclarations`).
-/
import LazyFields.Schema.Build

namespace LazyFields

open LazyFields.Source

/-! ## §1. Fields. -/

/-- The computed fields, by the names they are kept under. -/
def ResourceSpec.computed (info : ResourceSpec) : List String :=
  (info.fields.filter fun _ f => !f.isStatic).keys

/-- The computed fields are those that are not static. -/
theorem ResourceSpec.mem_computed {info : ResourceSpec} {field : String} :
    field ∈ info.computed ↔ ∃ spec, info.field? field = some spec ∧ spec.isStatic = false := by
  rw [computed, ← Table.contains_iff_mem_keys, Table.contains, Table.get?_filter,
    Option.isSome_filter, field?]
  cases info.fields.get? field <;> simp

section Fields

variable {file : File} {id : String}

/-- The names of the fields, in the order they were written. -/
def Source.Declaration.fieldNames (d : Declaration) : List String :=
  d.fields.map fun f => f.decl.name

/-- What a field is built to: its type is resolved, the rest is as declared. -/
theorem buildField_eq_ok {f : DeclaredField} {spec : FieldSpec}
    (h : buildField file id f = .ok spec) :
    (∃ e, f.decl.type = some e ∧ typeOf file e = .ok spec.type)
      ∧ spec.name = f.decl.name ∧ spec.isStatic = f.decl.isStatic
      ∧ spec.refs = f.decl.references := by
  unfold buildField at h
  split at h
  · simp at h
  · next e he =>
    split at h
    · simp at h
    · next t ht =>
      cases h
      exact ⟨⟨e, he, ht⟩, rfl, rfl, rfl⟩

/-- A field is built if its type is given and resolved. -/
theorem buildField_isOk_iff {f : DeclaredField} :
    (∃ spec, buildField file id f = .ok spec)
      ↔ ∃ e t, f.decl.type = some e ∧ typeOf file e = .ok t := by
  constructor
  · rintro ⟨spec, h⟩
    obtain ⟨⟨e, he, ht⟩, -⟩ := buildField_eq_ok h
    exact ⟨e, spec.type, he, ht⟩
  · rintro ⟨e, t, he, ht⟩
    simp [buildField, he, ht]

/-- The fields that were built are those there before and the declared ones. -/
theorem get?_buildFields : ∀ {fs : List DeclaredField} {fields out : Table FieldSpec},
    buildFields file id fs fields = .ok out → ∀ name spec,
      out.get? name = some spec ↔ fields.get? name = some spec
        ∨ ∃ f ∈ fs, f.decl.name = name ∧ buildField file id f = .ok spec := by
  intro fs
  induction fs with
  | nil =>
    intro fields out h name spec
    cases h
    simp
  | cons f fs ih =>
    intro fields out h name spec
    unfold buildFields at h
    split at h
    · simp at h
    · next info hinfo =>
      split at h
      · simp at h
      · next hfresh =>
        have hname : info.name = f.decl.name := (buildField_eq_ok hinfo).2.1
        have hnone : fields.get? info.name = none := by simpa [Table.contains] using hfresh
        rw [ih h name spec, Table.get?_insert]
        -- the name was free, so it is the field built now that has it
        by_cases heq : info.name = name
        · subst heq
          rw [hnone]
          simp [← hname, hinfo]
        · simp [heq, ← hname]

/-- Fields are built if each one is, and no name comes twice. -/
theorem buildFields_isOk_iff : ∀ {fs : List DeclaredField} {fields : Table FieldSpec},
    (∃ out, buildFields file id fs fields = .ok out)
      ↔ (∀ f ∈ fs, ∃ spec, buildField file id f = .ok spec)
        ∧ (fs.map fun f => f.decl.name).Nodup ∧ ∀ f ∈ fs, fields.contains f.decl.name = false := by
  intro fs
  induction fs with
  | nil => simp [buildFields]
  | cons f fs ih =>
    intro fields
    simp only [List.forall_mem_cons, List.map_cons, List.nodup_cons]
    unfold buildFields
    cases hinfo : buildField file id f with
    | error e => simp
    | ok info =>
      have hname : info.name = f.decl.name := (buildField_eq_ok hinfo).2.1
      have hinsert : ∀ name, (fields.insert info.name info).contains name = false
          ↔ fields.contains name = false ∧ f.decl.name ≠ name := by
        intro name
        simp only [Table.contains, Table.get?_insert, hname]
        by_cases heq : f.decl.name = name <;> simp [heq]
      simp only [Except.ok.injEq, exists_eq', true_and]
      cases hfresh : fields.contains info.name with
      | true => simp [← hname, hfresh]
      | false =>
        simp only [Bool.false_eq_true, if_false, ih, hinsert]
        rw [← hname, hfresh]
        simp only [List.mem_map, not_exists, not_and]
        -- a name is free after the first field if it was free and is not that of the first field
        constructor
        · rintro ⟨hall, hnodup, hfree⟩
          exact ⟨hall, ⟨fun g hg heq => (hfree g hg).2 heq.symm, hnodup⟩, trivial,
            fun g hg => (hfree g hg).1⟩
        · rintro ⟨hall, ⟨hother, hnodup⟩, -, hfree⟩
          exact ⟨hall, hnodup, fun g hg => ⟨hfree g hg, fun heq => hother g hg heq.symm⟩⟩

end Fields

/-! ## §2. Constructors of a declaration. -/

section Inits

variable {file : File} {id : String} {fields : Table FieldSpec}

/-- The argument has a type, which is that of the field of its name. -/
def ArgumentFits (file : File) (fields : Table FieldSpec) (a : ArgDecl) : Prop :=
  ∃ t, typeOf file a.type = .ok t ∧ ∀ f, fields.get? a.name = some f → f.type = t

/-- After an optional argument all others are optional. -/
def OptionalLast (args : List ArgDecl) : Prop :=
  args.Pairwise fun a b => a.optional = true → b.optional = true

/-- Arguments are built if each one fits, and optional ones come last. -/
theorem buildArgs_isOk_iff : ∀ {args : List ArgDecl} {afterOptional : Bool},
    (∃ out, buildArgs file id fields afterOptional args = .ok out)
      ↔ (∀ a ∈ args, ArgumentFits file fields a) ∧ OptionalLast args
        ∧ (afterOptional = true → ∀ a ∈ args, a.optional = true) := by
  intro args
  induction args with
  | nil => simp [buildArgs, OptionalLast]
  | cons a args ih =>
    intro afterOptional
    have hrest := @ih (afterOptional || a.optional)
    rw [List.forall_mem_cons, List.forall_mem_cons, OptionalLast, List.pairwise_cons, buildArgs]
    cases ht : typeOf file a.type with
    | error fault => simp [ArgumentFits, ht]
    | ok t =>
      have hfits : ArgumentFits file fields a ↔ ∀ f, fields.get? a.name = some f → f.type = t := by
        simp [ArgumentFits, ht]
      rw [hfits]
      dsimp only
      by_cases hdiffers : (fields.get? a.name).any fun f => f.type != t
      · obtain ⟨f, hf, hne⟩ := (Option.any_eq_true _ _).1 hdiffers
        have hnot : ¬ ∀ f, fields.get? a.name = some f → f.type = t := fun h => by
          simp [h f hf] at hne
        simp [hdiffers, hnot]
      · have hsame : ∀ f, fields.get? a.name = some f → f.type = t := by
          intro f hf
          simpa [hf] using hdiffers
        rw [if_neg hdiffers]
        by_cases hlate : (afterOptional && !a.optional) = true
        · rw [if_pos hlate]
          simp only [Bool.and_eq_true, Bool.not_eq_true'] at hlate
          simp [hlate.1, hlate.2]
        · rw [if_neg hlate]
          -- an optional argument here lets only optional ones follow, as one before would
          have hrun : (∃ out, buildArgs file id fields (afterOptional || a.optional) args = .ok out)
              ↔ ((∀ f, fields.get? a.name = some f → f.type = t)
                  ∧ ∀ x ∈ args, ArgumentFits file fields x)
                ∧ ((∀ b ∈ args, a.optional = true → b.optional = true) ∧ OptionalLast args)
                ∧ (afterOptional = true → a.optional = true ∧ ∀ x ∈ args, x.optional = true) := by
            rw [hrest, Bool.or_eq_true]
            constructor
            · rintro ⟨hfits, hlast, hall⟩
              refine ⟨⟨hsame, hfits⟩, ⟨fun b hb ha => hall (.inr ha) b hb, hlast⟩, fun hafter => ?_⟩
              exact ⟨by simpa [hafter] using hlate, hall (.inl hafter)⟩
            · rintro ⟨⟨-, hfits⟩, ⟨hfirst, hlast⟩, hafter⟩
              refine ⟨hfits, hlast, ?_⟩
              rintro (h | h)
              · exact (hafter h).2
              · exact fun b hb => hfirst b hb h
          refine Iff.trans ?_ hrun
          cases buildArgs file id fields (afterOptional || a.optional) args <;> simp

/-- An init is built if there is one at most, and its arguments fit. -/
theorem buildInit_isOk_iff {inits : List (List ArgDecl)} :
    (∃ out, buildInit file id fields inits = .ok out)
      ↔ inits.length ≤ 1
        ∧ ∀ args ∈ inits, (∀ a ∈ args, ArgumentFits file fields a) ∧ OptionalLast args := by
  match inits with
  | [] => simp [buildInit]
  | [args] =>
    have hrun : (∃ out, buildInit file id fields [args] = .ok out)
        ↔ ∃ out, buildArgs file id fields false args = .ok out := by
      simp only [buildInit]
      cases buildArgs file id fields false args <;> simp
    rw [hrun, buildArgs_isOk_iff]
    simp
  | _ :: _ :: _ => simp [buildInit]

/-- There are parameters if there is an init. -/
theorem isSome_buildInit {inits : List (List ArgDecl)} {out : Option (List Parameter)}
    (h : buildInit file id fields inits = .ok out) : out.isSome = true ↔ inits ≠ [] := by
  match inits with
  | [] =>
    cases h
    simp
  | [args] =>
    simp only [buildInit] at h
    split at h
    · simp at h
    · cases h
      simp
  | _ :: _ :: _ => simp [buildInit] at h

/-- The parameters are the arguments with their types. -/
def ParametersOf (file : File) (args : List ArgDecl) (params : List Parameter) : Prop :=
  ∀ p, p ∈ params ↔ ∃ a ∈ args, ∃ t, typeOf file a.type = .ok t ∧ p = ⟨a.name, t, a.optional⟩

/-- The parameters say what the arguments do. -/
theorem parametersOf_buildArgs : ∀ {args : List ArgDecl} {afterOptional : Bool}
    {params : List Parameter}, buildArgs file id fields afterOptional args = .ok params →
    ParametersOf file args params := by
  intro args
  induction args with
  | nil =>
    intro afterOptional params h
    cases h
    intro p
    simp
  | cons a args ih =>
    intro afterOptional params h
    rw [buildArgs] at h
    split at h
    · simp at h
    · next t ht =>
      split at h
      · simp at h
      · split at h
        · simp at h
        · split at h
          · simp at h
          · next rest hrest =>
            cases h
            intro p
            rw [List.mem_cons, ih hrest p]
            simp [ht]

/-- The parameters say what the arguments of the init do. -/
theorem parametersOf_buildInit {inits : List (List ArgDecl)} {params : List Parameter}
    (h : buildInit file id fields inits = .ok (some params)) :
    ∃ args ∈ inits, ParametersOf file args params := by
  match inits with
  | [] => simp [buildInit] at h
  | [args] =>
    simp only [buildInit] at h
    split at h
    · simp at h
    · next built hbuilt =>
      cases h
      exact ⟨args, List.mem_cons_self, parametersOf_buildArgs hbuilt⟩
  | _ :: _ :: _ => simp [buildInit] at h

end Inits

/-! ## §3. One declaration. -/

section Declaration

variable {file : File}

/-- The resource says what the declarations say together: it has their fields
and no others, their constructor if one of them has one, the elements of one of
them if it has any, and is an extension if all of them are. -/
structure Says (file : File) (ds : List Declaration) (info : ResourceSpec) : Prop where
  isExtension : info.isExtension = ds.all Declaration.isExtension
  init : info.init.isSome = true ↔ ∃ d ∈ ds, d.inits ≠ []
  parameters : ∀ params, info.init = some params →
    ∃ d ∈ ds, ∃ args ∈ d.inits, ParametersOf file args params
  element : ∀ t, info.listType = some t →
    ∃ d ∈ ds, ∃ head, d.list = some head ∧ resolveName file head.element = .ok t
  field : ∀ name spec, info.fields.get? name = some spec
    ↔ ∃ d ∈ ds, ∃ f ∈ d.fields, f.decl.name = name ∧ buildField file d.id f = .ok spec
  built : ∀ d ∈ ds, ∀ f ∈ d.fields, ∃ spec, buildField file d.id f = .ok spec

/-- The fields are those that some declaration declares. -/
theorem Says.contains {ds : List Declaration} {info : ResourceSpec} (h : Says file ds info)
    (name : String) : info.fields.contains name = true ↔ ∃ d ∈ ds, name ∈ d.fieldNames := by
  rw [Table.contains, Option.isSome_iff_exists]
  constructor
  · rintro ⟨spec, hspec⟩
    obtain ⟨d, hd, f, hf, hname, -⟩ := (h.field name spec).1 hspec
    exact ⟨d, hd, List.mem_map.2 ⟨f, hf, hname⟩⟩
  · rintro ⟨d, hd, hname⟩
    obtain ⟨f, hf, hname⟩ := List.mem_map.1 hname
    obtain ⟨spec, hspec⟩ := h.built d hd f hf
    exact ⟨spec, (h.field name spec).2 ⟨d, hd, f, hf, hname, hspec⟩⟩

/-- A list type is built if its element is resolved. -/
theorem buildListType_isOk_iff {id : String} {list : Option ListHead} :
    (∃ out, buildListType file id list = .ok out)
      ↔ ∀ head, list = some head → ∃ t, resolveName file head.element = .ok t := by
  cases list with
  | none => simp [buildListType]
  | some head =>
    simp only [buildListType, Option.some.injEq, forall_eq']
    cases resolveName file head.element <;> simp

/-- The list type is the resolved element. -/
theorem buildListType_eq_ok {id : String} {list : Option ListHead} {t : FieldType}
    (h : buildListType file id list = .ok (some t)) :
    ∃ head, list = some head ∧ resolveName file head.element = .ok t := by
  cases list with
  | none => simp [buildListType] at h
  | some head =>
    rw [buildListType] at h
    split at h
    · simp at h
    · next t' ht' =>
      cases h
      exact ⟨head, rfl, ht'⟩

/-- The table of the fields of a declaration. -/
theorem buildFields_declaration {d : Declaration} {fields : Table FieldSpec}
    (h : buildFields file d.id d.fields ∅ = .ok fields) (name : String) (spec : FieldSpec) :
    fields.get? name = some spec
      ↔ ∃ f ∈ d.fields, f.decl.name = name ∧ buildField file d.id f = .ok spec := by
  simpa using get?_buildFields h name spec

/-- What is built of a declaration says what it does. -/
theorem says_buildDeclaration {d : Declaration} {info : ResourceSpec}
    (h : buildDeclaration file d = .ok info) : info.id = d.id ∧ Says file [d] info := by
  unfold buildDeclaration at h
  split at h
  · simp at h
  · next listType hlist =>
    split at h
    · simp at h
    · next fields hfields =>
      split at h
      · simp at h
      · next init hinit =>
        cases h
        refine ⟨rfl, ?_, ?_, ?_, ?_, ?_, ?_⟩
        · simp
        · simpa using isSome_buildInit hinit
        · intro params hparams
          obtain rfl : init = some params := hparams
          exact ⟨d, List.mem_cons_self, parametersOf_buildInit hinit⟩
        · intro t ht
          obtain rfl : listType = some t := ht
          exact ⟨d, List.mem_cons_self, buildListType_eq_ok hlist⟩
        · intro name spec
          simpa using buildFields_declaration hfields name spec
        · simpa using (buildFields_isOk_iff.1 ⟨fields, hfields⟩).1

/-- **A declaration is built** when its list element and its fields have types,
no field is declared twice, and its constructor, of which it has one at most,
fits its fields. -/
theorem buildDeclaration_isOk_iff {d : Declaration} :
    (∃ info, buildDeclaration file d = .ok info)
      ↔ (∀ head, d.list = some head → ∃ t, resolveName file head.element = .ok t)
        ∧ (∀ f ∈ d.fields, ∃ spec, buildField file d.id f = .ok spec)
        ∧ d.fieldNames.Nodup ∧ d.inits.length ≤ 1
        ∧ ∀ args ∈ d.inits, OptionalLast args ∧ ∀ a ∈ args, ∃ t, typeOf file a.type = .ok t
          ∧ ∀ f ∈ d.fields, f.decl.name = a.name → ∀ spec, buildField file d.id f = .ok spec →
            spec.type = t := by
  unfold buildDeclaration
  rw [← @buildListType_isOk_iff file d.id d.list]
  cases hlist : buildListType file d.id d.list with
  | error e => simp
  | ok listType =>
    have hbuilt := @buildFields_isOk_iff file d.id d.fields ∅
    cases hfields : buildFields file d.id d.fields ∅ with
    | error e =>
      -- fields that are not built have no type or are declared twice
      simp only [hfields, reduceCtorEq, exists_false, false_iff] at hbuilt
      simp only [Except.ok.injEq, exists_eq', true_and, reduceCtorEq, exists_false, false_iff]
      rintro ⟨hall, hnodup, -⟩
      exact hbuilt ⟨hall, hnodup, fun _ _ => rfl⟩
    | ok fields =>
      simp only [hfields, Except.ok.injEq, exists_eq', true_iff] at hbuilt
      have hget := buildFields_declaration hfields
      have hrun : (∃ out, buildInit file d.id fields d.inits = .ok out)
          ↔ (∀ f ∈ d.fields, ∃ spec, buildField file d.id f = .ok spec)
            ∧ d.fieldNames.Nodup ∧ d.inits.length ≤ 1
            ∧ ∀ args ∈ d.inits, OptionalLast args ∧ ∀ a ∈ args, ∃ t, typeOf file a.type = .ok t
              ∧ ∀ f ∈ d.fields, f.decl.name = a.name →
                ∀ spec, buildField file d.id f = .ok spec → spec.type = t := by
        rw [buildInit_isOk_iff]
        constructor
        · rintro ⟨hone, hargs⟩
          refine ⟨hbuilt.1, hbuilt.2.1, hone, fun args hmem => ⟨(hargs args hmem).2, ?_⟩⟩
          intro a ha
          obtain ⟨t, ht, hsame⟩ := (hargs args hmem).1 a ha
          refine ⟨t, ht, fun f hf hname spec hspec => ?_⟩
          exact hsame spec ((hget _ _).2 ⟨f, hf, hname, hspec⟩)
        · rintro ⟨-, -, hone, hargs⟩
          refine ⟨hone, fun args hmem => ⟨fun a ha => ?_, (hargs args hmem).1⟩⟩
          obtain ⟨t, ht, hsame⟩ := (hargs args hmem).2 a ha
          refine ⟨t, ht, fun spec hspec => ?_⟩
          obtain ⟨f, hf, hname, hbuild⟩ := (hget _ _).1 hspec
          exact hsame f hf hname spec hbuild
      simp only [Except.ok.injEq, exists_eq', true_and]
      refine Iff.trans ?_ hrun
      cases buildInit file d.id fields d.inits <;> simp

end Declaration

/-! ## §4. Joining declarations. -/

section Join

variable {file : File} {id : String}

/-- Fields are joined if none is there already. -/
theorem joinFields_isOk_iff : ∀ {es : List (String × FieldSpec)} {fields : Table FieldSpec},
    Entries.Sorted es → ((∃ out, joinFields id es fields = .ok out)
      ↔ ∀ e ∈ es, fields.contains e.1 = false) := by
  intro es
  induction es with
  | nil => simp [joinFields]
  | cons e es ih =>
    intro fields hsorted
    obtain ⟨name, f⟩ := e
    rw [List.forall_mem_cons, joinFields]
    cases hknown : fields.contains name with
    | true => simp
    | false =>
      rw [if_neg (by simp), ih hsorted.of_cons]
      have hlater : ∀ e ∈ es, ((fields.insert name f).contains e.1 = false
          ↔ fields.contains e.1 = false) := by
        intro e he
        have hlt : name < e.1 := List.rel_of_pairwise_cons hsorted he
        have hne : name ≠ e.1 := fun heq => String.lt_irrefl _ (heq ▸ hlt)
        rw [Table.contains, Table.get?_insert_ne _ hne, Table.contains]
      constructor
      · exact fun h => ⟨rfl, fun e he => (hlater e he).1 (h e he)⟩
      · exact fun h e he => (hlater e he).2 (h.2 e he)

/-- Joined fields are those of either side. -/
theorem get?_joinFields : ∀ {es : List (String × FieldSpec)} {fields out : Table FieldSpec},
    joinFields id es fields = .ok out → ∀ name spec,
      out.get? name = some spec ↔ fields.get? name = some spec ∨ (name, spec) ∈ es := by
  intro es
  induction es with
  | nil =>
    intro fields out h name spec
    cases h
    simp
  | cons e es ih =>
    intro fields out h name spec
    obtain ⟨name', f⟩ := e
    rw [joinFields] at h
    split at h
    · simp at h
    · next hfresh =>
      have hnone : fields.get? name' = none := by simpa [Table.contains] using hfresh
      rw [ih h name spec, Table.get?_insert]
      by_cases heq : name' = name
      · subst heq
        rw [hnone]
        simp [eq_comm]
      · simp [heq, Ne.symm heq]

/-- What a declaration and a later one of the same resource may not share: one
of them extends, no field is in both, and one has no constructor. -/
structure Compatible (d d' : Declaration) : Prop where
  extends_ : d.isExtension = true ∨ d'.isExtension = true
  fields : ∀ name ∈ d.fieldNames, name ∉ d'.fieldNames
  init : d.inits = [] ∨ d'.inits = []

variable {ds : List Declaration} {d : Declaration} {existing info : ResourceSpec}

/-- A declaration joins another of its id if the two are compatible. -/
theorem joinDeclaration_isOk_iff (hds : Says file ds existing) (hd : Says file [d] info) :
    (∃ joined, joinDeclaration existing info = .ok joined) ↔ ∀ d' ∈ ds, Compatible d' d := by
  have hbase : (!info.isExtension && !existing.isExtension) = true
      ↔ ¬ ∀ d' ∈ ds, d'.isExtension = true ∨ d.isExtension = true := by
    rw [hd.isExtension, hds.isExtension]
    cases hext : d.isExtension <;> simp [hext]
  have hfields : (∃ out, joinFields info.id info.fields.entries existing.fields = .ok out)
      ↔ ∀ d' ∈ ds, ∀ name ∈ d'.fieldNames, name ∉ d.fieldNames := by
    have hinfo : ∀ name, name ∈ info.fields.keys ↔ name ∈ d.fieldNames := by
      intro name
      rw [← Table.contains_iff_mem_keys, hd.contains]
      simp
    have hknown : ∀ name, existing.fields.contains name = false
        ↔ ∀ d' ∈ ds, name ∉ d'.fieldNames := by
      intro name
      rw [← Bool.not_eq_true, hds.contains]
      simp
    rw [joinFields_isOk_iff info.fields.sorted]
    constructor
    · intro h d' hd' name hname' hname
      obtain ⟨e, he, rfl⟩ := List.mem_map.1 ((hinfo name).2 hname)
      exact (hknown e.1).1 (h e he) d' hd' hname'
    · intro h e he
      refine (hknown e.1).2 fun d' hd' hname' => ?_
      exact h d' hd' e.1 hname' ((hinfo e.1).1 (List.mem_map_of_mem he))
  have hinit : (existing.init.isSome && info.init.isSome) = true
      ↔ ¬ ∀ d' ∈ ds, d'.inits = [] ∨ d.inits = [] := by
    rw [Bool.and_eq_true, hds.init, hd.init]
    by_cases hnil : d.inits = [] <;> simp [hnil]
  have hall : (∀ d' ∈ ds, Compatible d' d) ↔
      (∀ d' ∈ ds, d'.isExtension = true ∨ d.isExtension = true)
        ∧ (∀ d' ∈ ds, ∀ name ∈ d'.fieldNames, name ∉ d.fieldNames)
        ∧ ∀ d' ∈ ds, d'.inits = [] ∨ d.inits = [] :=
    ⟨fun h => ⟨fun d' hd' => (h d' hd').extends_, fun d' hd' => (h d' hd').fields,
        fun d' hd' => (h d' hd').init⟩,
      fun h d' hd' => ⟨h.1 d' hd', h.2.1 d' hd', h.2.2 d' hd'⟩⟩
  rw [hall, joinDeclaration]
  -- the three tests stand in this order in the code
  by_cases hb : (!info.isExtension && !existing.isExtension) = true
  · rw [if_pos hb]
    simp [hbase.1 hb]
  · rw [if_neg hb, ← hfields]
    have hb' := Decidable.of_not_not (mt hbase.2 hb)
    cases joinFields info.id info.fields.entries existing.fields with
    | error e => simp
    | ok fields =>
      by_cases hi : (existing.init.isSome && info.init.isSome) = true
      · simp only [if_pos hi]
        simp [hinit.1 hi]
      · have hi' := Decidable.of_not_not (mt hinit.2 hi)
        simp only [if_neg hi]
        simpa using ⟨hb', hi'⟩

/-- What is joined says what both do. -/
theorem says_joinDeclaration (hds : Says file ds existing) (hd : Says file [d] info)
    {joined : ResourceSpec} (h : joinDeclaration existing info = .ok joined) :
    joined.id = existing.id ∧ Says file (ds ++ [d]) joined := by
  unfold joinDeclaration at h
  split at h
  · simp at h
  · split at h
    · simp at h
    · next fields hfields =>
      split at h
      · simp at h
      · cases h
        -- each entry of the joined resource is that of one of the two
        refine ⟨rfl, ?_, ?_, ?_, ?_, ?_, ?_⟩
        · simp [hds.isExtension, hd.isExtension]
        · rw [Option.isSome_or, Bool.or_eq_true, hds.init, hd.init]
          simp only [List.mem_append, List.mem_singleton]
          constructor
          · rintro (⟨d', hd', hne⟩ | ⟨d', hd', hne⟩)
            · exact ⟨d', .inl hd', hne⟩
            · exact ⟨d', .inr hd', hne⟩
          · rintro ⟨d', hd' | hd', hne⟩
            · exact .inl ⟨d', hd', hne⟩
            · exact .inr ⟨d', hd', hne⟩
        · intro params hparams
          rcases Option.or_eq_some_iff.1 hparams with hleft | ⟨-, hright⟩
          · obtain ⟨d', hd', rest⟩ := hds.parameters params hleft
            exact ⟨d', List.mem_append_left _ hd', rest⟩
          · obtain ⟨d', hd', rest⟩ := hd.parameters params hright
            exact ⟨d', List.mem_append_right _ hd', rest⟩
        · intro t ht
          rcases Option.or_eq_some_iff.1 ht with hleft | ⟨-, hright⟩
          · obtain ⟨d', hd', rest⟩ := hds.element t hleft
            exact ⟨d', List.mem_append_left _ hd', rest⟩
          · obtain ⟨d', hd', rest⟩ := hd.element t hright
            exact ⟨d', List.mem_append_right _ hd', rest⟩
        · intro name spec
          have hinfo := hd.field name spec
          rw [Table.get?_eq_some_iff_mem] at hinfo
          rw [get?_joinFields hfields, hds.field, hinfo]
          simp only [List.mem_append, List.mem_singleton]
          constructor
          · rintro (⟨d', hd', rest⟩ | ⟨d', hd', rest⟩)
            · exact ⟨d', .inl hd', rest⟩
            · exact ⟨d', .inr hd', rest⟩
          · rintro ⟨d', hd' | hd', rest⟩
            · exact .inl ⟨d', hd', rest⟩
            · exact .inr ⟨d', hd', rest⟩
        · intro d' hd'
          rcases List.mem_append.1 hd' with hd' | hd'
          · exact hds.built d' hd'
          · exact hd.built d' hd'

end Join

/-! ## §5. The pass over a file. -/

section Pass

variable {file : File}

/-- The declarations of a resource, in the order they stand. -/
def declarationsOf (ds : List Declaration) (id : String) : List Declaration :=
  ds.filter fun d => d.id = id

/-- The declarations of an id are those with the id. -/
theorem mem_declarationsOf {ds : List Declaration} {id : String} {d : Declaration} :
    d ∈ declarationsOf ds id ↔ d ∈ ds ∧ d.id = id := by
  simp [declarationsOf]

/-- One more declaration stands behind the others of its id. -/
theorem declarationsOf_append (seen : List Declaration) (d : Declaration) (id : String) :
    declarationsOf (seen ++ [d]) id
      = if d.id = id then declarationsOf seen id ++ [d] else declarationsOf seen id := by
  by_cases h : d.id = id <;> simp [declarationsOf, h]

/-- The resources say what the declarations so far say, each under its id. -/
structure Merged (file : File) (seen : List Declaration) (resources : Table ResourceSpec) :
    Prop where
  absent : ∀ id, resources.get? id = none ↔ declarationsOf seen id = []
  content : ∀ {id info}, resources.get? id = some info →
    info.id = id ∧ Says file (declarationsOf seen id) info

theorem merged_nil : Merged file [] ∅ where
  absent id := by simp [declarationsOf]
  content h := by simp at h

/-- Every two declarations of one resource are compatible. -/
def CompatibleAll (ds : List Declaration) : Prop :=
  ds.Pairwise fun d d' => d.id = d'.id → Compatible d d'

variable {seen : List Declaration} {resources : Table ResourceSpec} {d : Declaration}

/-- The resource of a further declaration is stored. -/
theorem Merged.insert (h : Merged file seen resources) {info : ResourceSpec} (hid : info.id = d.id)
    (hcontent : Says file (declarationsOf seen d.id ++ [d]) info) :
    Merged file (seen ++ [d]) (resources.insert d.id info) := by
  constructor
  · intro id
    rw [Table.get?_insert, declarationsOf_append]
    by_cases heq : d.id = id
    · simp [heq]
    · simp only [heq, if_false]
      exact h.absent id
  · intro id info' hinfo'
    rw [Table.get?_insert] at hinfo'
    rw [declarationsOf_append]
    by_cases heq : d.id = id
    · subst heq
      rw [if_pos rfl] at hinfo' ⊢
      cases hinfo'
      exact ⟨hid, hcontent⟩
    · rw [if_neg heq] at hinfo' ⊢
      exact h.content hinfo'

/-- With one more declaration, resources stay merged. -/
theorem merged_addDeclaration (h : Merged file seen resources) {out : Table ResourceSpec}
    (hadd : addDeclaration file resources d = .ok out) : Merged file (seen ++ [d]) out := by
  unfold addDeclaration at hadd
  split at hadd
  · simp at hadd
  · next info hinfo =>
    obtain ⟨hid, hd⟩ := says_buildDeclaration hinfo
    split at hadd
    · next hnone =>
      cases hadd
      refine h.insert hid ?_
      rw [(h.absent d.id).1 hnone]
      exact hd
    · next existing hexisting =>
      obtain ⟨hexistingId, hds⟩ := h.content hexisting
      split at hadd
      · simp at hadd
      · next joined hjoined =>
        cases hadd
        obtain ⟨hjoinedId, hcontent⟩ := says_joinDeclaration hds hd hjoined
        exact h.insert (hjoinedId.trans hexistingId) hcontent

/-- A declaration is added if it is built, and compatible with those of its id. -/
theorem addDeclaration_isOk_iff (h : Merged file seen resources) :
    (∃ out, addDeclaration file resources d = .ok out)
      ↔ (∃ info, buildDeclaration file d = .ok info)
        ∧ ∀ d' ∈ seen, d'.id = d.id → Compatible d' d := by
  unfold addDeclaration
  cases hinfo : buildDeclaration file d with
  | error e => simp
  | ok info =>
    obtain ⟨-, hd⟩ := says_buildDeclaration hinfo
    have hseen : (∀ d' ∈ seen, d'.id = d.id → Compatible d' d)
        ↔ ∀ d' ∈ declarationsOf seen d.id, Compatible d' d := by
      simp only [mem_declarationsOf, and_imp]
    rw [hseen]
    cases hexisting : resources.get? d.id with
    | none =>
      rw [(h.absent d.id).1 hexisting]
      simp
    | some existing =>
      rw [← joinDeclaration_isOk_iff (h.content hexisting).2 hd]
      dsimp only
      cases joinDeclaration existing info <;> simp

/-- With all declarations, resources are merged. -/
theorem merged_addDeclarations : ∀ {ds seen : List Declaration}
    {resources out : Table ResourceSpec}, Merged file seen resources →
    addDeclarations file ds resources = .ok out → Merged file (seen ++ ds) out := by
  intro ds
  induction ds with
  | nil =>
    intro seen resources out h hadd
    cases hadd
    simpa using h
  | cons d ds ih =>
    intro seen resources out h hadd
    unfold addDeclarations at hadd
    split at hadd
    · simp at hadd
    · next mid hmid =>
      simpa using ih (merged_addDeclaration h hmid) hadd

/-- What the whole pass comes to. -/
theorem merged_of_pass {out : Table ResourceSpec}
    (h : addDeclarations file file.resources ∅ = .ok out) : Merged file file.resources out := by
  simpa using merged_addDeclarations merged_nil h

/-- **The pass succeeds** when every declaration is built, and those of one
resource are compatible. -/
theorem addDeclarations_isOk_iff : ∀ {ds seen : List Declaration} {resources : Table ResourceSpec},
    Merged file seen resources →
    ((∃ out, addDeclarations file ds resources = .ok out)
      ↔ (∀ d ∈ ds, ∃ info, buildDeclaration file d = .ok info) ∧ CompatibleAll ds
        ∧ ∀ d ∈ ds, ∀ d' ∈ seen, d'.id = d.id → Compatible d' d) := by
  intro ds
  induction ds with
  | nil => simp [addDeclarations, CompatibleAll]
  | cons d ds ih =>
    intro seen resources h
    have hadd := addDeclaration_isOk_iff h (d := d)
    rw [List.forall_mem_cons, List.forall_mem_cons, CompatibleAll, List.pairwise_cons,
      addDeclarations]
    cases hmid : addDeclaration file resources d with
    | error e =>
      -- the pass ends here: not built, or not compatible with what was seen
      simp only [hmid, reduceCtorEq, exists_false, false_iff] at hadd
      simp only [reduceCtorEq, exists_false, false_iff]
      rintro ⟨⟨hbuilt, -⟩, -, hseen, -⟩
      exact hadd ⟨hbuilt, hseen⟩
    | ok mid =>
      simp only [hmid, Except.ok.injEq, exists_eq', true_iff] at hadd
      dsimp only
      rw [ih (merged_addDeclaration h hmid)]
      simp only [List.mem_append, List.mem_singleton]
      constructor
      · rintro ⟨hbuilt, hpairs, hseen⟩
        refine ⟨⟨hadd.1, hbuilt⟩, ⟨?_, hpairs⟩, hadd.2, fun b hb a ha => hseen b hb a (.inl ha)⟩
        exact fun b hb => hseen b hb d (.inr rfl)
      · rintro ⟨⟨-, hbuilt⟩, ⟨hfirst, hpairs⟩, -, hseen⟩
        refine ⟨hbuilt, hpairs, fun b hb a ha => ?_⟩
        rcases ha with ha | rfl
        · exact hseen b hb a ha
        · exact hfirst b hb

end Pass

end LazyFields
