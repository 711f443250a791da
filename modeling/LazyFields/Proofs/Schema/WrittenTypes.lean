/-
  LazyFields.Proofs.Schema.WrittenTypes
  ────────────────────────────────
  **A TYPE IS SHOWN AS IT WAS WRITTEN.**

  Two parsers read the notation of types: one reads tokens, in a resource file, and
  looks ahead for the bracket that makes `map` a map; the other reads the text that
  a schema keeps of a type, and compares its front.  They agree on all types whose
  names are plain (`written_types_agree`):

    · the tokens of the text are read as the type wherever a type stands, resources
      called `map` included (`TypeExpr.IsReadBack`)
    · what the names stand for is a type with the same text, which is also read as it
    · so the JSON of a schema has the types of a file as the file has them
      (`Schema.Shows`)
-/
import LazyFields.Proofs.FieldType.Notation
import LazyFields.Proofs.Schema.TypeNames
import LazyFields.Proofs.Source.RoundTrip

namespace LazyFields

open LazyFields.Source LazyFields.Text

/-! ## §1. In a source. -/

section Tokens

variable {e : TypeExpr}

/-- The text of a type is what its pieces render to. -/
theorem render_type (t : TypeExpr) : render t.pieces = t.text.toList := by
  induction t with
  | named name => simp [TypeExpr.pieces, TypeExpr.text, render, Piece.source, TokenKind.source]
  | list element ih =>
    simp only [TypeExpr.pieces, TypeExpr.text, String.toList_append, ← ih]
    rfl
  | map key value ih =>
    simp only [TypeExpr.pieces, TypeExpr.text, String.toList_append, ← ih]
    simp [render, Piece.source, TokenKind.source]

/-- The text of the type, with anything after it that its last name does not run into,
is scanned into tokens of its own, and they are read as the type.  If its last name is
`map`, no bracket may come next. -/
def Source.TypeExpr.IsReadBack (e : TypeExpr) : Prop :=
  ∀ file p rest ts, EndsName rest → scanFrom file (p.after e.text.toList) rest = .ok ts →
    (e.lastName = "map" → (nextToken ts).kind ≠ .leftBracket) →
    ∃ us, scanFrom file p (e.text.toList ++ rest) = .ok (us ++ ts)
      ∧ readType file (us ++ ts) = .ok (e, ts)

/-- A type of plain names can be read back. -/
theorem isReadBack_of_plain (h : ∀ name ∈ e.names, IsPlainName name) : e.IsReadBack := by
  intro file p rest ts hrest hscan hlast
  have hseparated : Separated e.pieces := by
    simpa using separated_type h separated_nil startsName_nil
  refine ⟨tokensAt p e.pieces, ?_, readType_pieces hlast p⟩
  rw [← render_type] at hscan ⊢
  exact scanFrom_render_append hrest hseparated hscan

/-- A resource with the type in each place where a type may stand. -/
def typedResource (e : TypeExpr) : Declaration where
  comments := []
  isPrivate := false
  isExtension := false
  id := "r"
  defaults := none
  list := none
  body :=
    [⟨[], .init [⟨"a", false, e⟩, ⟨"b", true, e⟩], .start⟩,
      ⟨[], .field ⟨"f", none, some e⟩, .start⟩, ⟨[], .field ⟨"g", some [], some e⟩, .start⟩]
  pos := .start

/-- The file that declares it. -/
def typedText (e : TypeExpr) : String :=
  "r \x7b\n  init(a " ++ e.text ++ ", b? " ++ e.text ++ ")\n  f " ++ e.text ++ "\n  g() " ++ e.text
    ++ "\n\x7d\n"

theorem render_typedResource (e : TypeExpr) :
    render (typedResource e).pieces = (typedText e).toList := by
  unfold typedText
  simp only [String.toList_append, ← render_type e]
  simp [typedResource, Declaration.pieces, modifierPieces, defaultsPieces, bodyPieces, headPieces,
    Item.pieces, commentPieces, ItemKind.pieces, ArgDecl.pieces, fieldTypePieces, refsPieces,
    namesPieces, enumerated, render, Piece.source, TokenKind.source]

theorem separated_typedResource (h : ∀ name ∈ e.names, IsPlainName name) :
    Separated (typedResource e).pieces := by
  have ha : IsPlainName "a" := by decide
  have hb : IsPlainName "b" := by decide
  have hf : IsPlainName "f" := by decide
  have hg : IsPlainName "g" := by decide
  have hspelled : ∀ item ∈ (typedResource e).body, item.Spelled := by
    simp only [typedResource, List.forall_mem_cons, List.not_mem_nil, false_imp_iff, implies_true,
      and_true]
    refine ⟨⟨?_, by simp⟩, ⟨?_, by simp⟩, ⟨?_, by simp⟩⟩
    · simp only [ItemKind.names, List.flatMap_cons, List.flatMap_nil, List.append_nil,
        List.forall_mem_append, List.forall_mem_cons]
      exact ⟨⟨ha, h⟩, hb, h⟩
    · simpa [ItemKind.names, FieldDecl.references, hf] using h
    · simpa [ItemKind.names, FieldDecl.references, hg] using h
  have hid : IsPlainName "r" := by decide
  simpa using separated_declaration (d := typedResource e) hid (by simp [typedResource]) hspelled
    separated_nil

/-- The type is read in each of these places. -/
theorem parse_typedText (h : ∀ name ∈ e.names, IsPlainName name) (name : String) :
    ∃ parsed, File.parse (typedText e) name = .ok parsed
      ∧ parsed.unplaced = File.ofTopLevels [.resource (typedResource e)] := by
  let q := Position.start.past (typedResource e).pieces
  have hnames : ∀ item ∈ (typedResource e).body, ∀ name ∈ item.kind.fieldNames,
      IsIdentifier name := by
    have hf : IsIdentifier "f" := by decide
    have hg : IsIdentifier "g" := by decide
    simp [typedResource, ItemKind.fieldNames, FieldDecl.references, hf, hg]
  have hid : IsIdentifier "r" := by decide
  obtain ⟨us, d, htake, hne, hsame, hread⟩ := readTopLevel_declaration name
    (d := typedResource e) hid (by simp [typedResource]) hnames (by simp [typedResource]) .start
    [⟨.eof, "", q⟩]
  -- it has no comments, so these are the tokens of the declaration alone
  have htops : readTopLevels name (tokensAt .start (typedResource e).pieces ++ [⟨.eof, "", q⟩])
      = .ok [.resource d] := readTopLevels_next htake hne hread readTopLevels_eof
  refine ⟨File.ofTopLevels [.resource d], ?_, ?_⟩
  · unfold File.parse Token.scan
    rw [← render_typedResource, scanFrom_render (separated_typedResource h)]
    dsimp only
    unfold File.ofTokens
    rw [htops]
  · rw [unplaced_ofTopLevels]
    exact congrArg (fun d => File.ofTopLevels [.resource d]) hsame

end Tokens

/-! ## §2. In a schema. -/

section Resolved

variable {file : File} {e : TypeExpr}

/-- Each name in the type is that of a primitive or of a resource that the file declares. -/
def Source.File.Covers (file : File) (e : TypeExpr) : Prop :=
  ∀ name ∈ e.names, (FieldType.primitive? name).isSome = true ∨ file.Declares name

/-- A plain name is the name of a resource. -/
theorem isResourceName_of_plain {name : String} (h : IsPlainName name) :
    FieldType.isResourceName name.toList = true := by
  refine List.all_eq_true.2 fun s hs => isSegment_of_isNameSegment ?_
  have hsegment := List.all_eq_true.1 h s hs
  cases s with
  | nil => cases hsegment
  | cons c cs =>
    obtain ⟨hstart, hchars⟩ := isPlainSegment_cons hsegment
    rw [List.all_cons, Bool.and_eq_true] at hchars
    rw [isNameSegment, hstart, hchars.2]
    rfl

/-- A name that is covered stands for a type of this name. -/
theorem exists_resolveName {name : String} (hplain : IsPlainName name)
    (h : (FieldType.primitive? name).isSome = true ∨ file.Declares name) :
    ∃ t, resolveName file name = .ok t ∧ t.text = name
      ∧ (t.isPrimitive = true ∨ t.isResource = true) ∧ t.HasNotation := by
  cases hprim : FieldType.primitive? name with
  | some t =>
    obtain ⟨hprimitive, htext⟩ := FieldType.primitive?_eq_some_iff.1 hprim
    exact ⟨t, resolveName_eq_ok_iff.2 (.primitive hprim), htext, .inl hprimitive,
      .primitive hprimitive⟩
  | none =>
    have hdeclared : file.Declares name := by simpa [hprim] using h
    have hdotted := FieldType.isDottedText_iff.2 (isResourceName_of_plain hplain)
    exact ⟨.resource name, resolveName_eq_ok_iff.2 (.declared hprim hdeclared), rfl, .inr rfl,
      .resource hdotted (FieldType.primitive?_eq_none_iff.1 hprim)⟩

/-- A covered type of plain names means a type with the same text, which has a
notation. -/
theorem exists_typeOf (hplain : ∀ name ∈ e.names, IsPlainName name) (h : file.Covers e) :
    ∃ t, typeOf file e = .ok t ∧ t.text = e.text ∧ t.HasNotation := by
  unfold Source.File.Covers at h
  induction e with
  | named name =>
    rw [TypeExpr.names, List.forall_mem_singleton] at hplain h
    obtain ⟨t, ht, htext, -, hform⟩ := exists_resolveName hplain h
    exact ⟨t, ht, htext, hform⟩
  | list element ih =>
    obtain ⟨t, ht, htext, hform⟩ := ih hplain h
    refine ⟨.array t, ?_, ?_, .array hform⟩
    · rw [typeOf, ht]
    · rw [FieldType.text, TypeExpr.text, htext]
  | map key value ih =>
    rw [TypeExpr.names, List.forall_mem_cons] at hplain h
    obtain ⟨k, hk, hkey, hkind, hkform⟩ := exists_resolveName hplain.1 h.1
    obtain ⟨v, hv, hvalue, hvform⟩ := ih hplain.2 h.2
    refine ⟨.map k v, ?_, ?_, .map hkind hkform hvform⟩
    · simp only [typeOf, hk, hv]
    · rw [FieldType.text, TypeExpr.text, hkey, hvalue]

/-- The text of a covered type is read as what the type stands for. -/
theorem ofText_of_typeOf (hplain : ∀ name ∈ e.names, IsPlainName name) (h : file.Covers e)
    {t : FieldType} (ht : typeOf file e = .ok t) :
    t.text = e.text ∧ FieldType.ofText e.text = .ok t := by
  obtain ⟨t', ht', htext, hform⟩ := exists_typeOf hplain h
  obtain rfl : t' = t := Except.ok.inj (ht'.symm.trans ht)
  exact ⟨htext, FieldType.ofText_eq_ok_iff.2 ⟨hform, htext⟩⟩

end Resolved

/-! ## §3. In the JSON of a schema. -/

section Shown

variable {file : File} {s : Schema}

/-- The value under the keys, one within the other. -/
def Json.at? : List String → Json → Option Json
  | [], j => some j
  | key :: keys, j => (j.member? key).bind (at? keys)

/-- What stands under a resource in the text of the schema. -/
theorem at?_resource {id : String} {info : ResourceSpec} (h : s.resources.get? id = some info)
    (keys : List String) :
    s.toJson.at? ("resources" :: id :: keys) = info.toJson.at? keys := by
  have hresources : s.toJson.member? "resources"
      = some (.object (s.resources.map ResourceSpec.toJson).entries) := by
    simp [Json.member?, Schema.toJson, Entries.find_cons]
  have hid : (Json.object (s.resources.map ResourceSpec.toJson).entries).member? id
      = some info.toJson := by
    show (s.resources.map ResourceSpec.toJson).get? id = _
    rw [Table.get?_map, h]
    rfl
  rw [Json.at?, hresources, Option.bind_some, Json.at?, hid, Option.bind_some]

/-- The type of a field, in the text of the schema. -/
theorem at?_field {info : ResourceSpec} {name : String} {spec : FieldSpec}
    (h : info.fields.get? name = some spec) :
    info.toJson.at? ["fields", name, "type"] = some (.string spec.type.text) := by
  have hfields : info.toJson.member? "fields"
      = some (.object (info.fields.map FieldSpec.toJson).entries) := by
    cases hinit : info.init <;>
      simp [Json.member?, ResourceSpec.toJson, Entries.find_append, find_textMember,
        Entries.find_cons, hinit]
  have hname : (Json.object (info.fields.map FieldSpec.toJson).entries).member? name
      = some spec.toJson := by
    show (info.fields.map FieldSpec.toJson).get? name = _
    rw [Table.get?_map, h]
    rfl
  have htype : spec.toJson.member? "type" = some (.string spec.type.text) := by
    simp [Json.member?, FieldSpec.toJson, Entries.find_cons]
  rw [Json.at?, hfields, Option.bind_some, Json.at?, hname, Option.bind_some, Json.at?, htype]
  rfl

/-- The arguments of `init`, in the text of the schema. -/
theorem at?_init {info : ResourceSpec} {params : List Parameter} (h : info.init = some params) :
    info.toJson.at? ["init", "args"] = some (.array (params.map Parameter.toJson)) := by
  have hinit : info.toJson.member? "init"
      = some (.object [("args", .array (params.map Parameter.toJson))]) := by
    simp [Json.member?, ResourceSpec.toJson, Entries.find_append, find_textMember,
      Entries.find_cons, h]
  rw [Json.at?, hinit]
  simp [Json.at?, Json.member?, Entries.find_cons]

/-- The JSON has the text of the type wherever a field or an argument has the type. -/
structure Schema.Shows (s : Schema) (file : File) (e : TypeExpr) : Prop where
  field : ∀ d ∈ file.resources, ∀ f ∈ d.fields, f.decl.type = some e →
    s.toJson.at? ["resources", d.id, "fields", f.decl.name, "type"] = some (.string e.text)
  argument : ∀ d ∈ file.resources, ∀ args ∈ d.inits, ∀ a ∈ args, a.type = e →
    ∃ params, s.toJson.at? ["resources", d.id, "init", "args"] = some (.array params)
      ∧ ∃ param ∈ params, param.member? "name" = some (.string a.name)
        ∧ param.member? "type" = some (.string e.text)

/-- A constructor is that of its resource: there is no other. -/
theorem exists_parameters (h : file.schema = .ok s) {d : Declaration} (hd : d ∈ file.resources)
    {args : List ArgDecl} (hargs : args ∈ d.inits) : ∃ info params,
      s.resources.get? d.id = some info ∧ info.init = some params
        ∧ ParametersOf file args params := by
  have hm := merged_of_schema h
  obtain ⟨info, hinfo⟩ := hm.declares.2 ⟨d, hd, rfl⟩
  have hcontent := (hm.content hinfo).2
  have hof : d ∈ declarationsOf file.resources d.id := mem_declarationsOf.2 ⟨hd, rfl⟩
  obtain ⟨params, hparams⟩ := Option.isSome_iff_exists.1
    (hcontent.init.2 ⟨d, hof, List.ne_nil_of_mem hargs⟩)
  obtain ⟨d', hd', args', hargs', hparameters⟩ := hcontent.parameters params hparams
  have hone := ((schema_isOk_iff file).1 ⟨s, h⟩).oneInit d.id
  obtain rfl : args' = args := eq_of_length_le_one hone (List.mem_flatMap.2 ⟨d', hd', hargs'⟩)
    (List.mem_flatMap.2 ⟨d, hof, hargs⟩)
  exact ⟨info, params, hinfo, hparams, hparameters⟩

/-- The schema shows the type at each place where the file writes it. -/
theorem shows_of_schema {e : TypeExpr} (hplain : ∀ name ∈ e.names, IsPlainName name)
    (hcovers : file.Covers e) (h : file.schema = .ok s) : s.Shows file e where
  field d hd f hf hwritten := by
    have hm := merged_of_schema h
    obtain ⟨spec, hbuild⟩ := hm.built hd hf
    obtain ⟨⟨e', he', ht⟩, -⟩ := buildField_eq_ok hbuild
    obtain rfl : e' = e := Option.some.inj (he'.symm.trans hwritten)
    obtain ⟨info, hinfo, hspec⟩ := hm.field.2 ⟨d, hd, f, hf, rfl, rfl, hbuild⟩
    rw [at?_resource hinfo, at?_field hspec, (ofText_of_typeOf hplain hcovers ht).1]
  argument d hd args hargs a ha hwritten := by
    obtain ⟨t, ht, htext, -⟩ := exists_typeOf hplain hcovers
    obtain ⟨info, params, hinfo, hparams, hparameters⟩ := exists_parameters h hd hargs
    subst hwritten
    have hmem : (⟨a.name, t, a.optional⟩ : Parameter) ∈ params :=
      (hparameters _).2 ⟨a, ha, t, ht, rfl⟩
    refine ⟨params.map Parameter.toJson, ?_, _, List.mem_map_of_mem hmem, rfl, ?_⟩
    · rw [at?_resource hinfo, at?_init hparams]
    · exact congrArg (fun text => some (Json.string text)) htext

end Shown

/-! ## §4. Agreement. -/

/-- **The two parsers of types agree.**  A type whose names are plain is read back from
the tokens of its text wherever a type stands.  In a file that covers its names it stands
for a type of the same text, which is read from this text, too; and a schema of the file
has this text in its JSON. -/
theorem written_types_agree {e : TypeExpr} (hplain : ∀ name ∈ e.names, IsPlainName name) :
    e.IsReadBack
      ∧ (∀ name, ∃ parsed, File.parse (typedText e) name = .ok parsed
        ∧ parsed.unplaced = File.ofTopLevels [.resource (typedResource e)])
      ∧ ∀ file : File, file.Covers e →
        (∃ t, typeOf file e = .ok t ∧ t.text = e.text ∧ FieldType.ofText e.text = .ok t)
          ∧ ∀ s, file.schema = .ok s → s.Shows file e := by
  refine ⟨isReadBack_of_plain hplain, parse_typedText hplain, fun file hcovers => ⟨?_, ?_⟩⟩
  · obtain ⟨t, ht, -⟩ := exists_typeOf hplain hcovers
    exact ⟨t, ht, ofText_of_typeOf hplain hcovers ht⟩
  · exact fun s hs => shows_of_schema hplain hcovers hs

/-- Maps of the resource `map`. -/
def mapType : TypeExpr := .map "map" (.list (.named "map"))

/-- The resource `map`, with a field and an argument of this type. -/
def mapFile : File where
  imports := []
  options := ∅
  resources :=
    [{ comments := [], isPrivate := false, isExtension := false, id := "map", defaults := none,
       list := none, pos := ⟨1, 1⟩,
       body := [⟨[], .init [⟨"parts", false, mapType⟩], ⟨2, 3⟩⟩,
         ⟨[], .field ⟨"parts", none, some mapType⟩, ⟨3, 3⟩⟩] }]
  packs := ∅

theorem written_types_agree_mapType :
    (∀ name ∈ mapType.names, IsPlainName name) ∧ mapFile.Covers mapType
      ∧ mapType.IsReadBack ∧ (∃ t, typeOf mapFile mapType = .ok t
        ∧ FieldType.ofText "map[map][]map" = .ok t)
      ∧ ∃ s, mapFile.schema = .ok s
        ∧ s.toJson.at? ["resources", "map", "fields", "parts", "type"]
          = some (.string "map[map][]map") := by
  have hplain : ∀ name ∈ mapType.names, IsPlainName name := by decide
  have hdeclares : mapFile.Declares "map" := ⟨_, List.mem_singleton_self _, rfl⟩
  have hcovers : mapFile.Covers mapType :=
    List.forall_mem_cons.2 ⟨.inr hdeclares, List.forall_mem_singleton.2 (.inr hdeclares)⟩
  have hok : mapFile.schema.isOk = true := by decide +kernel
  obtain ⟨hread, -, hfile⟩ := written_types_agree hplain
  obtain ⟨⟨t, ht, -, htext⟩, hshows⟩ := hfile mapFile hcovers
  refine ⟨hplain, hcovers, hread, ⟨t, ht, htext⟩, ?_⟩
  cases hs : mapFile.schema with
  | error e => simp [hs, Except.isOk, Except.toBool] at hok
  | ok s =>
    exact ⟨s, rfl,
      (hshows s hs).field _ (List.mem_singleton_self _) _ (List.mem_singleton_self _) rfl⟩

end LazyFields
