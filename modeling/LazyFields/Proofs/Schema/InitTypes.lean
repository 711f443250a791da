/-
  LazyFields.Proofs.Schema.InitTypes
  ────────────────────────────────
  **CONSTRUCTOR ARGUMENTS AND THE FIELDS OF THEIR NAMES.**

  An argument named like a field should have the type of the field.  The
  builder compares the two within ONE declaration, and the declarations of a
  resource are joined afterwards.  So a schema keeps arguments and fields in
  agreement exactly when the file does so ACROSS declarations, which nothing
  checks:

    · `sameType_of_own`    — within a declaration the types agree
    · `eq_of_mem_inits`    — a resource has one constructor, and
    · `Merged.parameters`  — its parameters are the arguments of that one
    · `initsAgree_iff`     — what is left to the file
    · `inits_disagree`     — a file that is accepted and breaks it
-/
import LazyFields.Proofs.Schema.Valid

namespace LazyFields

open LazyFields.Source

/-- In every resource, an argument of the constructor that is named like a field
has the type of the field. -/
def Schema.InitsAgree (s : Schema) : Prop :=
  ∀ id info params, s.resources.get? id = some info → info.init = some params →
    ∀ p ∈ params, ∀ spec, info.fields.get? p.name = some spec → spec.type = p.type

/-- Both expressions stand for one type in the file. -/
def Source.File.SameType (file : File) (e e' : TypeExpr) : Prop :=
  ∃ t, TypeMeans file file.FromPack e t ∧ TypeMeans file file.FromPack e' t

/-! ## §1. Within a declaration and across. -/

section Agreement

variable {file : File} {resources : Table ResourceSpec}

theorem sameType_iff {e e' : TypeExpr} {t t' : FieldType} (he : typeOf file e = .ok t)
    (he' : typeOf file e' = .ok t') : file.SameType e e' ↔ t = t' := by
  unfold Source.File.SameType
  constructor
  · intro h
    obtain ⟨u, hu, hu'⟩ := h
    rw [← typeOf_eq_ok_iff] at hu hu'
    rw [he] at hu
    rw [he'] at hu'
    cases hu
    cases hu'
    rfl
  · intro h
    subst h
    exact ⟨t, typeOf_eq_ok_iff.1 he, typeOf_eq_ok_iff.1 he'⟩

/-- Within a declaration the builder has compared the types. -/
theorem sameType_of_own {d : Declaration} (hbuilt : ∃ info, buildDeclaration file d = .ok info)
    {args : List ArgDecl} (hargs : args ∈ d.inits) {a : ArgDecl} (ha : a ∈ args)
    {f : DeclaredField} (hf : f ∈ d.fields) (hname : f.decl.name = a.name) {e : TypeExpr}
    (he : f.decl.type = some e) : file.SameType e a.type := by
  obtain ⟨-, hfields, -, -, hinits⟩ := buildDeclaration_isOk_iff.1 hbuilt
  obtain ⟨t, ht, hsame⟩ := (hinits args hargs).2 a ha
  obtain ⟨spec, hspec⟩ := hfields f hf
  obtain ⟨⟨e', he', hfield⟩, -⟩ := buildField_eq_ok hspec
  obtain rfl : e' = e := Option.some.inj (he'.symm.trans he)
  exact (sameType_iff hfield ht).2 (hsame f hf hname spec hspec)

/-- A resource has no second constructor, in whatever declaration. -/
theorem eq_of_mem_inits (hcompatible : CompatibleAll file.resources)
    (hown : ∀ d ∈ file.resources, d.fieldNames.Nodup ∧ d.inits.length ≤ 1)
    {d d' : Declaration} (hd : d ∈ file.resources) (hd' : d' ∈ file.resources) (hid : d'.id = d.id)
    {args args' : List ArgDecl} (hargs : args ∈ d.inits) (hargs' : args' ∈ d'.inits) :
    args = args' := by
  have hone := (compatibleAll_iff.1 ⟨hown, hcompatible⟩).2.1 d.id
  have hmem : ∀ {d' args'}, d' ∈ file.resources → d'.id = d.id → args' ∈ d'.inits →
      args' ∈ (declarationsOf file.resources d.id).flatMap Declaration.inits := by
    intro d' args' hd' hid hargs'
    exact List.mem_flatMap.2 ⟨d', mem_declarationsOf.2 ⟨hd', hid⟩, hargs'⟩
  have hfirst := hmem hd rfl hargs
  have hsecond := hmem hd' hid hargs'
  generalize (declarationsOf file.resources d.id).flatMap Declaration.inits = all
    at hfirst hsecond hone
  cases all with
  | nil => cases hfirst
  | cons only others =>
    obtain rfl : others = [] := List.length_eq_zero_iff.1 (Nat.le_zero.1 (Nat.le_of_succ_le_succ hone))
    rw [List.mem_singleton] at hfirst hsecond
    rw [hfirst, hsecond]

/-- The parameters of a resource are the arguments of a constructor that one of
its declarations has. -/
theorem Merged.parameters (hm : Merged file file.resources resources) {id : String}
    {info : ResourceSpec} {params : List Parameter} (hinfo : resources.get? id = some info)
    (hparams : info.init = some params) :
    ∃ d ∈ file.resources, d.id = id ∧ ∃ args ∈ d.inits, ParametersOf file args params := by
  obtain ⟨d, hd, args, hargs, hof⟩ := (hm.content hinfo).2.parameters params hparams
  obtain ⟨hmem, hid⟩ := mem_declarationsOf.1 hd
  exact ⟨d, hmem, hid, args, hargs, hof⟩

/-- **Arguments agree with fields exactly when they do so across declarations.**
Within each declaration they always do. -/
theorem initsAgree_iff {file : File} {s : Schema} (h : file.schema = .ok s) :
    s.InitsAgree ↔ ∀ d ∈ file.resources, ∀ other ∈ file.resources, other.id = d.id → other ≠ d →
      ∀ args ∈ d.inits, ∀ a ∈ args, ∀ f ∈ other.fields, f.decl.name = a.name →
        ∀ e, f.decl.type = some e → file.SameType e a.type := by
  have hadd := (parts_of_schema h).1
  have hm : Merged file file.resources s.resources := by
    simpa using merged_addDeclarations merged_nil hadd
  obtain ⟨hbuilt, hcompatible, -⟩ := (addDeclarations_isOk_iff merged_nil).1 ⟨_, hadd⟩
  have hown : ∀ d ∈ file.resources, d.fieldNames.Nodup ∧ d.inits.length ≤ 1 := by
    intro d hd
    obtain ⟨-, -, hnodup, hone, -⟩ := buildDeclaration_isOk_iff.1 (hbuilt d hd)
    exact ⟨hnodup, hone⟩
  constructor
  · intro hagree d hd other hother hid _ args hargs a ha f hf hname e he
    obtain ⟨t, ht, -⟩ :=
      ((buildDeclaration_isOk_iff.1 (hbuilt d hd)).2.2.2.2 args hargs).2 a ha
    obtain ⟨info, hinfo⟩ := hm.declares.2 ⟨d, hd, rfl⟩
    -- the resource has a constructor, and there is no other than this
    have hsome : info.init.isSome = true := by
      rw [(hm.content hinfo).2.init]
      exact ⟨d, mem_declarationsOf.2 ⟨hd, rfl⟩, List.ne_nil_of_mem hargs⟩
    obtain ⟨params, hparams⟩ := Option.isSome_iff_exists.1 hsome
    obtain ⟨d', hd', hid', args', hargs', hof⟩ := hm.parameters hinfo hparams
    obtain rfl : args = args' := eq_of_mem_inits hcompatible hown hd hd' hid' hargs hargs'
    have hparam : (⟨a.name, t, a.optional⟩ : Parameter) ∈ params := (hof _).2 ⟨a, ha, t, ht, rfl⟩
    obtain ⟨spec, hbuild⟩ := hm.built hother hf
    obtain ⟨⟨e', he', hfield⟩, -⟩ := buildField_eq_ok hbuild
    obtain rfl : e' = e := Option.some.inj (he'.symm.trans he)
    have hspec : info.fields.get? a.name = some spec :=
      ((hm.content hinfo).2.field a.name spec).2
        ⟨other, mem_declarationsOf.2 ⟨hother, hid⟩, f, hf, hname, hbuild⟩
    exact (sameType_iff hfield ht).2 (hagree d.id info params hinfo hparams _ hparam spec hspec)
  · intro hacross id info params hinfo hparams p hp spec hspec
    obtain ⟨d, hd, hid, args, hargs, hof⟩ := hm.parameters hinfo hparams
    obtain ⟨a, ha, t, ht, rfl⟩ := (hof p).1 hp
    obtain ⟨other, hother, f, hf, hid', hname, hbuild⟩ := hm.field.1 ⟨info, hinfo, hspec⟩
    obtain ⟨⟨e, he, hfield⟩, -⟩ := buildField_eq_ok hbuild
    refine (sameType_iff hfield ht).1 ?_
    by_cases hsame : other = d
    · subst hsame
      exact sameType_of_own (hbuilt other hother) hargs ha hf hname he
    · exact hacross d hd other hother (hid'.trans hid.symm) hsame args hargs a ha f hf hname e he

end Agreement

/-! ## §2. A constructor in the base, its field in an extension. -/

/-- The argument `path` of the base has the given type, the field `path` of the
extension is a string. -/
def splitFile (argument : String) : File where
  imports := []
  options := ∅
  resources :=
    [{ comments := [], isPrivate := false, isExtension := false, id := "file", defaults := none,
       list := none, body := [⟨[], .init [⟨"path", false, .named argument⟩], ⟨2, 3⟩⟩],
       pos := ⟨1, 1⟩ },
     { comments := [], isPrivate := false, isExtension := true, id := "file", defaults := none,
       list := none, body := [⟨[], .field ⟨"path", none, some (.named "string")⟩, ⟨5, 3⟩⟩],
       pos := ⟨4, 8⟩ }]
  packs := ∅

/-- The schema of `splitFile`. -/
def splitSchema (argument : FieldType) : Schema where
  resources := Table.ofList
    [("file",
      { id := "file", name := "file", title := "", desc := "",
        init := some [⟨"path", argument, false⟩], isPrivate := false, isExtension := false,
        defaults := "",
        fields := Table.ofList [("path", ⟨"path", .string, true, [], "", "", false⟩)],
        listType := none })]

/-- Where both are strings, the schema is in agreement. -/
theorem initsAgree_splitSchema :
    (splitFile "string").schema = .ok (splitSchema .string) ∧ (splitSchema .string).InitsAgree := by
  have hschema : (splitFile "string").schema = .ok (splitSchema .string) := by decide +kernel
  refine ⟨hschema, (initsAgree_iff hschema).2 ?_⟩
  intro d hd other hother _ _ args hargs a ha f hf _ e he
  have hstring : ∀ d ∈ (splitFile "string").resources, ∀ args ∈ d.inits, ∀ a ∈ args,
      a.type = .named "string" := by decide
  have hfield : ∀ d ∈ (splitFile "string").resources, ∀ f ∈ d.fields,
      f.decl.type = some (.named "string") := by decide
  obtain rfl := Option.some.inj ((hfield other hother f hf).symm.trans he)
  rw [hstring d hd args hargs a ha]
  exact ⟨.string, .named (.primitive rfl), .named (.primitive rfl)⟩

/-- A file is accepted although its base takes an integer for the field that its
extension declares as a string. -/
theorem inits_disagree : ¬ ∀ (file : File) (s : Schema), file.schema = .ok s → s.InitsAgree := by
  intro h
  have hschema : (splitFile "int").schema = .ok (splitSchema .int) := by decide +kernel
  have hagree := h _ _ hschema "file" _ _ rfl rfl ⟨"path", .int, false⟩ List.mem_cons_self
  exact absurd (hagree _ rfl) (by decide)

end LazyFields
