/-
  LazyFields.Proofs.Schema.Valid
  ────────────────────────────────
  **A SCHEMA IS BUILT FROM EXACTLY THE VALID FILES.**

  `File.Valid` says what a valid file is without a word about how a schema is
  built: what its names mean, what a resource may declare once only, and what
  its references may name.  The builder finds all this in one pass over the
  declarations and two more over what they come to.

    · `typeOf_eq_ok_iff`     — reading a type expression is reading its names
    · `compatibleAll_iff`    — one base, one constructor, each field once
    · `checkReferences_isOk_iff`, `checkAcyclic_isOk_iff` — the last two passes
    · `schema_isOk_iff`      — all of it together

  The pack of a dotted name is what stands before its FIRST dot.  A pack whose
  own name has a dot can be imported, but nothing in it can be named
  (`schema_refuses_dotted_pack`).
-/
import LazyFields.Proofs.Schema.Accepted
import LazyFields.Proofs.Schema.Acyclic
import LazyFields.Proofs.Schema.Merged

namespace LazyFields

open LazyFields.Source
open Relation (TransGen)

/-! ## §1. What names mean. -/

namespace Source.File

/-- A resource of the name is declared. -/
def Declares (file : File) (id : String) : Prop := ∃ d ∈ file.resources, d.id = id

/-- The name is made of the name of a pack, a dot, and the name of a resource
of that pack. -/
def FromSomePack (file : File) (name rest : String) : Prop :=
  ∃ pack p, name = pack ++ "." ++ rest ∧ file.packs.get? pack = some p
    ∧ p.resources.contains rest = true

/-- The part of the name before its first dot is the name of a pack, and what
follows the dot is a resource of that pack. -/
def FromPack (file : File) (name rest : String) : Prop :=
  ∃ pack p, name = pack ++ "." ++ rest ∧ '.' ∉ pack.toList ∧ file.packs.get? pack = some p
    ∧ p.resources.contains rest = true

end Source.File

section Names

variable (file : File) (fromPack : String → String → Prop)

/-- The type that a name stands for: a primitive, a resource of the file, or a
resource of a pack, in this order. -/
inductive NameMeans : String → FieldType → Prop
  | primitive {name t} : FieldType.primitive? name = some t → NameMeans name t
  | declared {name} : FieldType.primitive? name = none → file.Declares name →
      NameMeans name (.resource name)
  | packed {name rest} : FieldType.primitive? name = none → ¬ file.Declares name →
      fromPack name rest → NameMeans name (.resource rest)

/-- The type that a type expression stands for. -/
inductive TypeMeans : TypeExpr → FieldType → Prop
  | named {name t} : NameMeans file fromPack name t → TypeMeans (.named name) t
  | list {e t} : TypeMeans e t → TypeMeans (.list e) (.array t)
  | map {key k value v} : NameMeans file fromPack key k → TypeMeans value v →
      TypeMeans (.map key value) (.map k v)

/-- The name is a primitive, a resource of the file, or a resource of a pack. -/
def Source.File.Knows (name : String) : Prop :=
  (FieldType.primitive? name).isSome = true ∨ file.Declares name ∨ ∃ rest, fromPack name rest

variable {file fromPack}

/-- A name has a meaning if the file knows it. -/
theorem exists_nameMeans_iff {name : String} :
    (∃ t, NameMeans file fromPack name t) ↔ file.Knows fromPack name := by
  constructor
  · intro h
    obtain ⟨t, h⟩ := h
    cases h with
    | primitive hprim => exact .inl (by simp [hprim])
    | declared _ hdeclared => exact .inr (.inl hdeclared)
    | packed _ _ hpacked => exact .inr (.inr ⟨_, hpacked⟩)
  · intro h
    cases hprim : FieldType.primitive? name with
    | some t => exact ⟨t, .primitive hprim⟩
    | none =>
      by_cases hdeclared : file.Declares name
      · exact ⟨_, .declared hprim hdeclared⟩
      · rcases h with h | h | h
        · simp [hprim] at h
        · exact absurd h hdeclared
        · obtain ⟨rest, hrest⟩ := h
          exact ⟨_, .packed hprim hdeclared hrest⟩

/-- An expression stands for a type when each of its names does. -/
theorem exists_typeMeans_iff {e : TypeExpr} :
    (∃ t, TypeMeans file fromPack e t) ↔ ∀ name ∈ e.names, file.Knows fromPack name := by
  induction e with
  | named name =>
    rw [TypeExpr.names, List.forall_mem_singleton, ← exists_nameMeans_iff]
    constructor
    · intro h
      obtain ⟨t, h⟩ := h
      cases h with
      | named h => exact ⟨t, h⟩
    · intro h
      obtain ⟨t, h⟩ := h
      exact ⟨t, .named h⟩
  | list element ih =>
    rw [TypeExpr.names, ← ih]
    constructor
    · intro h
      obtain ⟨t, h⟩ := h
      cases h with
      | list h => exact ⟨_, h⟩
    · intro h
      obtain ⟨t, h⟩ := h
      exact ⟨_, .list h⟩
  | map key value ih =>
    rw [TypeExpr.names, List.forall_mem_cons, ← ih, ← exists_nameMeans_iff]
    constructor
    · intro h
      obtain ⟨t, h⟩ := h
      cases h with
      | map hkey hvalue => exact ⟨⟨_, hkey⟩, ⟨_, hvalue⟩⟩
    · intro h
      obtain ⟨⟨k, hkey⟩, v, hvalue⟩ := h
      exact ⟨_, .map hkey hvalue⟩

end Names

/-! ## §2. What the builder makes of a name. -/

section Resolution

variable {file : File}

/-- The local names are those of the declarations. -/
theorem contains_localNames {name : String} :
    file.localNames.contains name = true ↔ file.Declares name := by
  simp [Source.File.localNames, Source.File.Declares]

/-- A name is looked up in the pack before its first dot. -/
theorem packAndName?_iff {name pack rest : String} :
    file.packAndName? name = some (pack, rest)
      ↔ name = pack ++ "." ++ rest ∧ '.' ∉ pack.toList ∧ file.packs.contains pack = true := by
  have hsingleton : String.singleton '.' = "." := rfl
  rw [Source.File.packAndName?, Option.filter_eq_some_iff, Text.splitFirst?_eq_some_iff,
    hsingleton, and_assoc]

/-- A name is from a pack if its first part is one and the pack has the rest. -/
theorem fromPack_iff {name rest : String} :
    file.FromPack name rest ↔ ∃ pack, file.packAndName? name = some (pack, rest)
      ∧ ((file.packs.get? pack).any fun p => p.resources.contains rest) = true := by
  constructor
  · intro h
    obtain ⟨pack, p, hname, hdot, hpack, hrest⟩ := h
    refine ⟨pack, packAndName?_iff.2 ⟨hname, hdot, ?_⟩, ?_⟩
    · simp [Table.contains, hpack]
    · simp [hpack, hrest]
  · intro h
    obtain ⟨pack, hcut, hany⟩ := h
    obtain ⟨hname, hdot, -⟩ := packAndName?_iff.1 hcut
    obtain ⟨p, hpack, hrest⟩ := (Option.any_eq_true _ _).1 hany
    exact ⟨pack, p, hname, hdot, hpack, hrest⟩

/-- A name is resolved to what it means. -/
theorem resolveName_eq_ok_iff {name : String} {t : FieldType} :
    resolveName file name = .ok t ↔ NameMeans file file.FromPack name t := by
  unfold resolveName
  cases hprim : FieldType.primitive? name with
  | some p =>
    constructor
    · intro h
      cases h
      exact .primitive hprim
    · intro h
      cases h <;> simp_all
  | none =>
    by_cases hlocal : file.localNames.contains name = true
    · have hdeclared := contains_localNames.1 hlocal
      simp only [hlocal, if_true]
      constructor
      · intro h
        cases h
        exact .declared hprim hdeclared
      · intro h
        cases h <;> simp_all
    · have hdeclared : ¬ file.Declares name := mt contains_localNames.2 hlocal
      simp only [hlocal]
      -- only a pack is left
      have honly : NameMeans file file.FromPack name t
          ↔ ∃ rest, file.FromPack name rest ∧ .resource rest = t := by
        constructor
        · intro h
          cases h with
          | primitive h => simp [hprim] at h
          | declared _ h => exact absurd h hdeclared
          | packed _ _ h => exact ⟨_, h, rfl⟩
        · intro h
          obtain ⟨rest, h, rfl⟩ := h
          exact .packed hprim hdeclared h
      simp only [honly, fromPack_iff]
      cases hcut : file.packAndName? name with
      | none => simp
      | some q =>
        obtain ⟨pack, rest⟩ := q
        by_cases hany : ((file.packs.get? pack).any fun p => p.resources.contains rest) = true
        · simp [hany]
        · simp [hany]

/-- **A type expression is read as what it stands for.** -/
theorem typeOf_eq_ok_iff {e : TypeExpr} {t : FieldType} :
    typeOf file e = .ok t ↔ TypeMeans file file.FromPack e t := by
  induction e generalizing t with
  | named name =>
    rw [typeOf, resolveName_eq_ok_iff]
    constructor
    · intro h
      exact .named h
    · intro h
      cases h with
      | named h => exact h
  | list element ih =>
    rw [typeOf]
    constructor
    · intro h
      split at h
      · simp at h
      · next t' ht' =>
        cases h
        exact .list (ih.1 ht')
    · intro h
      cases h with
      | list h => simp [ih.2 h]
  | map key value ih =>
    rw [typeOf]
    constructor
    · intro h
      split at h
      · simp at h
      · next k hk =>
        split at h
        · simp at h
        · next v hv =>
          cases h
          exact .map (resolveName_eq_ok_iff.1 hk) (ih.1 hv)
    · intro h
      cases h with
      | map hk hv => simp [resolveName_eq_ok_iff.2 hk, ih.2 hv]

/-- A type is resolved if the file knows its names. -/
theorem exists_typeOf_iff {e : TypeExpr} :
    (∃ t, typeOf file e = .ok t) ↔ ∀ name ∈ e.names, file.Knows file.FromPack name := by
  rw [← exists_typeMeans_iff]
  exact exists_congr fun _ => typeOf_eq_ok_iff

/-- A name is resolved if the file knows it. -/
theorem exists_resolveName_iff {name : String} :
    (∃ t, resolveName file name = .ok t) ↔ file.Knows file.FromPack name := by
  rw [← exists_nameMeans_iff]
  exact exists_congr fun _ => resolveName_eq_ok_iff

end Resolution

/-! ## §3. What references name. -/

section References

variable (file : File) (fromPack : String → String → Prop)

namespace Source.File

/-- Every declaration of the resource extends it. -/
def OnlyExtends (id : String) : Prop :=
  ∀ d ∈ file.resources, d.id = id → d.isExtension = true

/-- One of the declarations of the resource has the field. -/
def HasField (id name : String) : Prop :=
  ∃ d ∈ file.resources, d.id = id ∧ name ∈ d.fieldNames

/-- What a reference in the resource `id` may name.  It is cut at its last
dot.  Of a resource that is only extended here, any field may be named. -/
inductive RefersTo (id : String) : String → Prop
  | own {field} : '.' ∉ field.toList → file.OnlyExtends id ∨ file.HasField id field →
      RefersTo id field
  | declared {target field} : '.' ∉ field.toList → file.Declares target →
      file.OnlyExtends target ∨ file.HasField target field →
      RefersTo id (target ++ "." ++ field)
  | packed {target field rest} : '.' ∉ field.toList → ¬ file.Declares target →
      fromPack target rest → RefersTo id (target ++ "." ++ field)

/-- The node is that of a computed field. -/
def IsComputed (node : String) : Prop :=
  ∃ d ∈ file.resources, ∃ f ∈ d.fields, f.decl.isStatic = false
    ∧ node = fieldNode d.id f.decl.name

/-- The second node is that of a computed field that refers to the first, which
is that of a computed field, too. -/
def Feeds (a b : String) : Prop :=
  ∃ d ∈ file.resources, ∃ f ∈ d.fields, f.decl.isStatic = false
    ∧ (∃ reference ∈ f.decl.references, refNode d.id reference = a)
    ∧ b = fieldNode d.id f.decl.name ∧ file.IsComputed a

end Source.File

variable {file fromPack}

/-- A reference with a dot is split at the last one. -/
theorem splitReference_append {target field : String} (h : '.' ∉ field.toList) :
    splitReference (target ++ "." ++ field) = (some target, field) := by
  have hsplit : Text.splitLast? '.' (target ++ "." ++ field) = some (target, field) :=
    Text.splitLast?_eq_some_iff.2 ⟨rfl, h⟩
  simp [splitReference, hsplit]

/-- A reference without a dot is a field of the same resource. -/
theorem splitReference_of_not_mem {field : String} (h : '.' ∉ field.toList) :
    splitReference field = (none, field) := by
  simp [splitReference, Text.splitLast?_eq_none_iff.2 h]

/-- The two forms of a reference. -/
theorem reference_cases (reference : String) :
    '.' ∉ reference.toList
      ∨ ∃ target field, reference = target ++ "." ++ field ∧ '.' ∉ field.toList := by
  cases hsplit : Text.splitLast? '.' reference with
  | none => exact .inl (Text.splitLast?_eq_none_iff.1 hsplit)
  | some p =>
    obtain ⟨target, field⟩ := p
    obtain ⟨heq, hdot⟩ := Text.splitLast?_eq_some_iff.1 hsplit
    exact .inr ⟨target, field, heq, hdot⟩

/-- What a reference without a dot may refer to. -/
theorem refersTo_own_iff {id field : String} (h : '.' ∉ field.toList) :
    file.RefersTo fromPack id field ↔ file.OnlyExtends id ∨ file.HasField id field := by
  constructor
  · intro hrefers
    cases hrefers with
    | own _ hown => exact hown
    | declared => simp at h
    | packed => simp at h
  · intro hown
    exact .own h hown

/-- What a reference with a dot may refer to: it is cut in one way only. -/
theorem refersTo_dotted_iff {id target field : String} (h : '.' ∉ field.toList) :
    file.RefersTo fromPack id (target ++ "." ++ field)
      ↔ (file.Declares target ∧ (file.OnlyExtends target ∨ file.HasField target field))
        ∨ (¬ file.Declares target ∧ ∃ rest, fromPack target rest) := by
  have hsplit : splitReference (target ++ "." ++ field) = (some target, field) :=
    splitReference_append h
  constructor
  · intro hrefers
    generalize heq : target ++ "." ++ field = reference at hrefers
    cases hrefers with
    | own hnot => simp [← heq] at hnot
    | declared hdot hdeclared hfield =>
      rw [heq, splitReference_append hdot] at hsplit
      cases hsplit
      exact .inl ⟨hdeclared, hfield⟩
    | packed hdot hnot hpack =>
      rw [heq, splitReference_append hdot] at hsplit
      cases hsplit
      exact .inr ⟨hnot, _, hpack⟩
  · intro hrefers
    rcases hrefers with ⟨hdeclared, hfield⟩ | ⟨hnot, rest, hpack⟩
    · exact .declared h hdeclared hfield
    · exact .packed h hnot hpack

end References

/-! ## §4. What may be declared once only. -/

section Once

variable {ds : List Declaration}

/-- What holds of all pairs with one id holds of the pairs of each id. -/
theorem pairwise_iff_declarationsOf {R : Declaration → Declaration → Prop} :
    (ds.Pairwise fun d d' => d.id = d'.id → R d d')
      ↔ ∀ id, (declarationsOf ds id).Pairwise R := by
  simp only [declarationsOf, List.pairwise_filter, decide_eq_true_eq]
  induction ds with
  | nil => simp
  | cons d ds ih =>
    simp only [List.pairwise_cons, ih, forall_and]
    refine and_congr_left' ?_
    constructor
    · intro h id d' hd' hid hid'
      exact h d' hd' (hid.trans hid'.symm)
    · intro h d' hd' heq
      exact h d.id d' hd' rfl heq.symm

/-- A list has one member at most if no two of them go together. -/
theorem length_le_one_iff {α : Type} {l : List α} :
    l.length ≤ 1 ↔ l.Pairwise fun _ _ => False := by
  match l with
  | [] => simp
  | [_] => simp
  | a :: b :: l =>
    constructor
    · intro h
      simp at h
    · intro h
      exact absurd (List.rel_of_pairwise_cons h List.mem_cons_self) id

/-- Members of a list of one are equal. -/
theorem eq_of_length_le_one {α : Type} {a b : α} : ∀ {l : List α}, l.length ≤ 1 → a ∈ l → b ∈ l →
    a = b
  | [_], _, ha, hb => (List.mem_singleton.1 ha).trans (List.mem_singleton.1 hb).symm

/-- One of any two declarations extends when one of all is a base at most. -/
theorem length_bases_le_one_iff :
    (ds.filter fun d => !d.isExtension).length ≤ 1
      ↔ ds.Pairwise fun d d' => d.isExtension = true ∨ d'.isExtension = true := by
  rw [length_le_one_iff, List.pairwise_filter]
  refine iff_of_eq (congrArg (List.Pairwise · ds) ?_)
  funext d d'
  cases d.isExtension <;> cases d'.isExtension <;> simp

/-- There is one init at most if no declaration has two and no two have any. -/
theorem length_inits_le_one_iff :
    (ds.flatMap Declaration.inits).length ≤ 1
      ↔ (∀ d ∈ ds, d.inits.length ≤ 1) ∧ ds.Pairwise fun d d' => d.inits = [] ∨ d'.inits = [] := by
  simp only [length_le_one_iff, List.pairwise_flatMap]
  refine and_congr_right' (iff_of_eq (congrArg (List.Pairwise · ds) ?_))
  funext d d'
  refine propext ⟨fun h => ?_, fun h x hx y hy => ?_⟩
  · by_contra hboth
    obtain ⟨hne, hne'⟩ := not_or.1 hboth
    obtain ⟨x, hx⟩ := List.exists_mem_of_ne_nil _ hne
    obtain ⟨y, hy⟩ := List.exists_mem_of_ne_nil _ hne'
    exact h x hx y hy
  · rcases h with h | h
    · exact List.not_mem_nil (h ▸ hx)
    · exact List.not_mem_nil (h ▸ hy)

/-- No name comes twice if none does in a declaration or in two of them. -/
theorem nodup_fieldNames_iff :
    (ds.flatMap Declaration.fieldNames).Nodup
      ↔ (∀ d ∈ ds, d.fieldNames.Nodup)
        ∧ ds.Pairwise fun d d' => ∀ name ∈ d.fieldNames, name ∉ d'.fieldNames := by
  rw [List.nodup_flatMap]
  refine and_congr_right' (iff_of_eq (congrArg (List.Pairwise · ds) ?_))
  funext d d'
  simp [Function.onFun, List.Disjoint]

/-- Declarations are compatible if one extends, names differ, and one has no
init. -/
theorem pairwise_compatible_iff :
    ds.Pairwise Compatible
      ↔ (ds.Pairwise fun d d' => d.isExtension = true ∨ d'.isExtension = true)
        ∧ (ds.Pairwise fun d d' => ∀ name ∈ d.fieldNames, name ∉ d'.fieldNames)
        ∧ ds.Pairwise fun d d' => d.inits = [] ∨ d'.inits = [] := by
  rw [← List.pairwise_and_iff, ← List.pairwise_and_iff]
  refine iff_of_eq (congrArg (List.Pairwise · ds) ?_)
  funext d d'
  exact propext ⟨fun h => ⟨h.extends_, h.fields, h.init⟩, fun h => ⟨h.1, h.2.1, h.2.2⟩⟩

/-- **Declarations are compatible, and each of them is in order,** when a
resource has one base, one constructor, and each of its fields once. -/
theorem compatibleAll_iff :
    ((∀ d ∈ ds, d.fieldNames.Nodup ∧ d.inits.length ≤ 1) ∧ CompatibleAll ds)
      ↔ (∀ id, ((declarationsOf ds id).filter fun d => !d.isExtension).length ≤ 1)
        ∧ (∀ id, ((declarationsOf ds id).flatMap Declaration.inits).length ≤ 1)
        ∧ ∀ id, ((declarationsOf ds id).flatMap Declaration.fieldNames).Nodup := by
  have hall : ∀ {p : Declaration → Prop},
      (∀ d ∈ ds, p d) ↔ ∀ id, ∀ d ∈ declarationsOf ds id, p d := by
    intro p
    simp only [mem_declarationsOf]
    exact ⟨fun h id d hd => h d hd.1, fun h d hd => h d.id d ⟨hd, rfl⟩⟩
  rw [CompatibleAll, pairwise_iff_declarationsOf, hall, ← forall_and, ← forall_and, ← forall_and]
  refine forall_congr' fun id => ?_
  rw [length_bases_le_one_iff, length_inits_le_one_iff, nodup_fieldNames_iff,
    pairwise_compatible_iff]
  constructor
  · intro h
    obtain ⟨hown, hext, hfields, hinit⟩ := h
    exact ⟨hext, ⟨fun d hd => (hown d hd).2, hinit⟩, fun d hd => (hown d hd).1, hfields⟩
  · intro h
    obtain ⟨hext, ⟨hone, hinit⟩, hnodup, hfields⟩ := h
    exact ⟨fun d hd => ⟨hnodup d hd, hone d hd⟩, hext, hfields, hinit⟩

end Once

/-! ## §5. The passes over the resources. -/

section Passes

variable {file : File} {resources : Table ResourceSpec}

/-- The resources are those that are declared. -/
theorem Merged.declares (hm : Merged file file.resources resources) {id : String} :
    (∃ info, resources.get? id = some info) ↔ file.Declares id := by
  have habsent : resources.get? id = none ↔ ¬ file.Declares id := by
    rw [hm.absent, declarationsOf, List.filter_eq_nil_iff]
    simp [Source.File.Declares]
  rw [← not_iff_not, ← habsent, ← Option.isSome_iff_exists, Option.not_isSome_iff_eq_none]

/-- A resource extends if all its declarations do. -/
theorem Merged.onlyExtends (hm : Merged file file.resources resources) {id : String}
    {info : ResourceSpec} (hinfo : resources.get? id = some info) :
    info.isExtension = true ↔ file.OnlyExtends id := by
  rw [(hm.content hinfo).2.isExtension, List.all_eq_true]
  simp only [mem_declarationsOf, and_imp]
  exact Iff.rfl

/-- The fields of a resource are those that are declared. -/
theorem Merged.hasField (hm : Merged file file.resources resources) {id name : String}
    {info : ResourceSpec} (hinfo : resources.get? id = some info) :
    info.fields.contains name = true ↔ file.HasField id name := by
  rw [(hm.content hinfo).2.contains]
  simp only [mem_declarationsOf, and_assoc]
  exact Iff.rfl

/-- The fields of a resource are those of its declarations. -/
theorem Merged.field (hm : Merged file file.resources resources) {id name : String}
    {spec : FieldSpec} :
    (∃ info, resources.get? id = some info ∧ info.fields.get? name = some spec)
      ↔ ∃ d ∈ file.resources, ∃ f ∈ d.fields, d.id = id ∧ f.decl.name = name
        ∧ buildField file d.id f = .ok spec := by
  constructor
  · intro h
    obtain ⟨info, hinfo, hspec⟩ := h
    obtain ⟨d, hd, f, hf, hname, hbuild⟩ := ((hm.content hinfo).2.field name spec).1 hspec
    obtain ⟨hmem, hid⟩ := mem_declarationsOf.1 hd
    exact ⟨d, hmem, f, hf, hid, hname, hbuild⟩
  · intro h
    obtain ⟨d, hmem, f, hf, hid, hname, hbuild⟩ := h
    obtain ⟨info, hinfo⟩ := hm.declares.2 ⟨d, hmem, hid⟩
    refine ⟨info, hinfo, ((hm.content hinfo).2.field name spec).2 ?_⟩
    exact ⟨d, mem_declarationsOf.2 ⟨hmem, hid⟩, f, hf, hname, hbuild⟩

/-- Every declared field has been built. -/
theorem Merged.built (hm : Merged file file.resources resources) {d : Declaration}
    (hd : d ∈ file.resources) {f : DeclaredField} (hf : f ∈ d.fields) :
    ∃ spec, buildField file d.id f = .ok spec := by
  obtain ⟨info, hinfo⟩ := hm.declares.2 ⟨d, hd, rfl⟩
  exact (hm.content hinfo).2.built d (mem_declarationsOf.2 ⟨hd, rfl⟩) f hf

/-- A reference is known if it refers to something. -/
theorem knowsReference_iff (hm : Merged file file.resources resources) {id reference : String}
    {info : ResourceSpec} (hinfo : resources.get? id = some info) :
    knowsReference file ⟨resources⟩ info reference = true
      ↔ file.RefersTo file.FromPack id reference := by
  rcases reference_cases reference with hdot | ⟨target, field, rfl, hdot⟩
  · rw [refersTo_own_iff hdot, ← hm.onlyExtends hinfo, ← hm.hasField hinfo, knowsReference,
      splitReference_of_not_mem hdot, Bool.or_eq_true]
  · rw [refersTo_dotted_iff hdot, knowsReference, splitReference_append hdot]
    dsimp only
    have hdeclares : (∃ info, resources.get? target = some info) ↔ file.Declares target :=
      hm.declares
    cases hget : resources.get? target with
    | some other =>
      have hdeclared : file.Declares target := hdeclares.1 ⟨other, hget⟩
      simp only [Schema.resource?, hget, hdeclared, Bool.or_eq_true, hm.onlyExtends hget,
        hm.hasField hget, true_and, not_true_eq_false, false_and, or_false]
    | none =>
      have hnot : ¬ file.Declares target := by
        rw [← hdeclares]
        simp [hget]
      simp only [Schema.resource?, hget, hnot, false_and, false_or, not_false_eq_true, true_and,
        fromPack_iff]
      -- what is not declared in the file can only come from a pack
      cases file.packAndName? target with
      | none => simp
      | some q =>
        obtain ⟨pack, rest⟩ := q
        constructor
        · intro h
          exact ⟨rest, pack, rfl, h⟩
        · intro h
          obtain ⟨_, _, heq, h⟩ := h
          cases heq
          exact h

/-- The second pass lets through what refers only to what it may name. -/
theorem checkReferences_isOk_iff (hm : Merged file file.resources resources) :
    checkReferences file ⟨resources⟩ = .ok ()
      ↔ ∀ d ∈ file.resources, ∀ f ∈ d.fields, ∀ reference ∈ f.decl.references,
        file.RefersTo file.FromPack d.id reference := by
  have hcheck : checkReferences file ⟨resources⟩ = .ok ()
      ↔ ∀ x ∈ Schema.references ⟨resources⟩,
        knowsReference file ⟨resources⟩ x.1 x.2.2.2 = true := by
    unfold checkReferences
    split
    · next hfind => simpa using hfind
    · next hfind =>
      have hmem := List.mem_of_find?_eq_some hfind
      have hbad := List.find?_some hfind
      refine iff_of_false (by simp) fun h => ?_
      have hgood := h _ hmem
      simp [hgood] at hbad
  rw [hcheck]
  -- the references of the schema are those of the declared fields, as each of them was built
  constructor
  · intro h d hd f hf reference href
    obtain ⟨spec, hbuild⟩ := hm.built hd hf
    obtain ⟨-, hname, -, hrefs⟩ := buildField_eq_ok hbuild
    obtain ⟨info, hinfo, hspec⟩ := hm.field.2 ⟨d, hd, f, hf, rfl, rfl, hbuild⟩
    refine (knowsReference_iff hm hinfo).1 (h (info, d.id, spec.name, reference) ?_)
    refine List.mem_flatMap.2 ⟨(d.id, info), Table.get?_eq_some_iff_mem.1 hinfo, ?_⟩
    refine List.mem_flatMap.2 ⟨spec, Table.mem_values.2 ⟨_, hspec⟩, ?_⟩
    exact List.mem_map.2 ⟨reference, hrefs ▸ href, rfl⟩
  · intro h x hx
    obtain ⟨⟨id, info⟩, hentry, hx⟩ := List.mem_flatMap.1 hx
    obtain ⟨spec, hvalue, hx⟩ := List.mem_flatMap.1 hx
    obtain ⟨reference, href, rfl⟩ := List.mem_map.1 hx
    obtain ⟨name, hspec⟩ := Table.mem_values.1 hvalue
    have hinfo := Table.get?_eq_some_iff_mem.2 hentry
    obtain ⟨d, hd, f, hf, rfl, -, hbuild⟩ := hm.field.1 ⟨info, hinfo, hspec⟩
    obtain ⟨-, -, -, hrefs⟩ := buildField_eq_ok hbuild
    exact (knowsReference_iff hm hinfo).2 (h d hd f hf reference (hrefs ▸ href))

/-- The computed fields are those that are declared and built. -/
theorem Merged.computed (hm : Merged file file.resources resources) {id : String}
    {spec : FieldSpec} :
    (id, spec) ∈ Schema.computedFields ⟨resources⟩
      ↔ ∃ d ∈ file.resources, ∃ f ∈ d.fields, d.id = id ∧ f.decl.isStatic = false
        ∧ buildField file d.id f = .ok spec := by
  constructor
  · intro h
    obtain ⟨⟨id', info⟩, hentry, h⟩ := List.mem_flatMap.1 h
    obtain ⟨spec', hmem, heq⟩ := List.mem_map.1 h
    cases heq
    obtain ⟨hvalue, hcomputed⟩ := List.mem_filter.1 hmem
    obtain ⟨name, hspec⟩ := Table.mem_values.1 hvalue
    have hinfo := Table.get?_eq_some_iff_mem.2 hentry
    obtain ⟨d, hd, f, hf, hid, -, hbuild⟩ := hm.field.1 ⟨info, hinfo, hspec⟩
    obtain ⟨-, -, hstatic, -⟩ := buildField_eq_ok hbuild
    exact ⟨d, hd, f, hf, hid, by simpa [hstatic] using hcomputed, hbuild⟩
  · intro h
    obtain ⟨d, hd, f, hf, hid, hcomputed, hbuild⟩ := h
    obtain ⟨-, -, hstatic, -⟩ := buildField_eq_ok hbuild
    obtain ⟨info, hinfo, hspec⟩ := hm.field.2 ⟨d, hd, f, hf, hid, rfl, hbuild⟩
    exact Schema.mem_computedFields hinfo hspec (hstatic.trans hcomputed)

/-- The nodes of the graph are the computed fields. -/
theorem Merged.isComputed (hm : Merged file file.resources resources) {node : String} :
    (Schema.graph ⟨resources⟩).nodes.contains node = true ↔ file.IsComputed node := by
  show (Table.ofNames _).contains node = true ↔ _
  rw [Table.contains_ofNames, List.mem_map]
  constructor
  · intro h
    obtain ⟨⟨id, spec⟩, hmem, rfl⟩ := h
    obtain ⟨d, hd, f, hf, rfl, hcomputed, hbuild⟩ := hm.computed.1 hmem
    obtain ⟨-, hname, -, -⟩ := buildField_eq_ok hbuild
    exact ⟨d, hd, f, hf, hcomputed, by simp [hname]⟩
  · intro h
    obtain ⟨d, hd, f, hf, hcomputed, rfl⟩ := h
    obtain ⟨spec, hbuild⟩ := hm.built hd hf
    obtain ⟨-, hname, -, -⟩ := buildField_eq_ok hbuild
    exact ⟨(d.id, spec), hm.computed.2 ⟨d, hd, f, hf, rfl, hcomputed, hbuild⟩, by simp [hname]⟩

/-- Its edges lead from a computed field to those that refer to it. -/
theorem Merged.leads (hm : Merged file file.resources resources) {a b : String} :
    Graph.Leads (Schema.graph ⟨resources⟩).edges a b ↔ file.Feeds a b := by
  rw [Graph.Leads, Schema.mem_edges_iff]
  constructor
  · intro h
    obtain ⟨id, spec, hspec, ⟨reference, href, hdep⟩, hend, hnode⟩ := h
    obtain ⟨d, hd, f, hf, rfl, hcomputed, hbuild⟩ := hm.computed.1 hspec
    obtain ⟨-, hname, -, hrefs⟩ := buildField_eq_ok hbuild
    refine ⟨d, hd, f, hf, hcomputed, ⟨reference, hrefs ▸ href, hdep⟩, ?_, hm.isComputed.1 hnode⟩
    rw [← hend, hname]
  · intro h
    obtain ⟨d, hd, f, hf, hcomputed, ⟨reference, href, hdep⟩, rfl, hnode⟩ := h
    obtain ⟨spec, hbuild⟩ := hm.built hd hf
    obtain ⟨-, hname, -, hrefs⟩ := buildField_eq_ok hbuild
    refine ⟨d.id, spec, hm.computed.2 ⟨d, hd, f, hf, rfl, hcomputed, hbuild⟩,
      ⟨reference, hrefs ▸ href, hdep⟩, ?_, hm.isComputed.2 hnode⟩
    rw [hname]

/-- The last pass lets through what has no cycle. -/
theorem checkAcyclic_isOk_iff (hm : Merged file file.resources resources) :
    Schema.checkAcyclic ⟨resources⟩ = .ok () ↔ ∀ node, ¬ TransGen file.Feeds node node := by
  have hfeeds : Graph.Leads (Schema.graph ⟨resources⟩).edges = file.Feeds := by
    funext a b
    exact propext hm.leads
  rw [Schema.checkAcyclic_isOk_iff_residue, Graph.residue_eq_nil_iff (Schema.closed_graph _), hfeeds]

end Passes

/-! ## §6. Valid files. -/

/-- The file is valid, if the names of its packs' resources are those that
`fromPack` tells. -/
structure Source.File.ValidBy (file : File) (fromPack : String → String → Prop) : Prop where
  /-- Every field, desugared ones included, has a type whose names are known. -/
  typed : ∀ d ∈ file.resources, ∀ f ∈ d.fields, ∃ e, f.decl.type = some e
    ∧ ∀ name ∈ e.names, file.Knows fromPack name
  arguments : ∀ d ∈ file.resources, ∀ args ∈ d.inits, ∀ a ∈ args, ∀ name ∈ a.type.names,
    file.Knows fromPack name
  elements : ∀ d ∈ file.resources, ∀ head, d.list = some head →
    file.Knows fromPack head.element
  oneBase : ∀ id, ((declarationsOf file.resources id).filter fun d => !d.isExtension).length ≤ 1
  oneInit : ∀ id, ((declarationsOf file.resources id).flatMap Declaration.inits).length ≤ 1
  fieldsOnce : ∀ id, ((declarationsOf file.resources id).flatMap Declaration.fieldNames).Nodup
  optionalLast : ∀ d ∈ file.resources, ∀ args ∈ d.inits, OptionalLast args
  /-- An argument named like a field of its declaration has the type of the field. -/
  sameType : ∀ d ∈ file.resources, ∀ args ∈ d.inits, ∀ a ∈ args, ∀ f ∈ d.fields,
    f.decl.name = a.name → ∀ e, f.decl.type = some e →
      ∃ t, TypeMeans file fromPack e t ∧ TypeMeans file fromPack a.type t
  references : ∀ d ∈ file.resources, ∀ f ∈ d.fields, ∀ reference ∈ f.decl.references,
    file.RefersTo fromPack d.id reference
  acyclic : ∀ node, ¬ TransGen file.Feeds node node

/-- The file is valid. -/
def Source.File.Valid (file : File) : Prop := file.ValidBy file.FromPack

section Valid

variable {file : File}

/-- The first pass: each declaration is built, and they are compatible. -/
theorem addDeclarations_isOk_iff_valid :
    (∃ resources, addDeclarations file file.resources ∅ = .ok resources)
      ↔ (∀ d ∈ file.resources, ∀ f ∈ d.fields, ∃ e, f.decl.type = some e
          ∧ ∀ name ∈ e.names, file.Knows file.FromPack name)
        ∧ (∀ d ∈ file.resources, ∀ args ∈ d.inits, ∀ a ∈ args, ∀ name ∈ a.type.names,
          file.Knows file.FromPack name)
        ∧ (∀ d ∈ file.resources, ∀ head, d.list = some head →
          file.Knows file.FromPack head.element)
        ∧ ((∀ d ∈ file.resources, d.fieldNames.Nodup ∧ d.inits.length ≤ 1)
          ∧ CompatibleAll file.resources)
        ∧ (∀ d ∈ file.resources, ∀ args ∈ d.inits, OptionalLast args)
        ∧ ∀ d ∈ file.resources, ∀ args ∈ d.inits, ∀ a ∈ args, ∀ f ∈ d.fields,
          f.decl.name = a.name → ∀ e, f.decl.type = some e →
            ∃ t, TypeMeans file file.FromPack e t ∧ TypeMeans file file.FromPack a.type t := by
  have hfield : ∀ {id : String} {f : DeclaredField},
      (∃ spec, buildField file id f = .ok spec) ↔ ∃ e, f.decl.type = some e
        ∧ ∀ name ∈ e.names, file.Knows file.FromPack name := by
    intro id f
    rw [buildField_isOk_iff]
    simp only [← exists_typeOf_iff, exists_and_left]
  rw [addDeclarations_isOk_iff merged_nil]
  simp only [buildDeclaration_isOk_iff, hfield, exists_resolveName_iff, List.not_mem_nil,
    false_imp_iff, forall_const, imp_true_iff, and_true]
  constructor
  · intro h
    obtain ⟨hbuilt, hpairs⟩ := h
    refine ⟨fun d hd => (hbuilt d hd).2.1, fun d hd args hargs a ha => ?_,
      fun d hd => (hbuilt d hd).1,
      ⟨fun d hd => ⟨(hbuilt d hd).2.2.1, (hbuilt d hd).2.2.2.1⟩, hpairs⟩,
      fun d hd args hargs => ((hbuilt d hd).2.2.2.2 args hargs).1,
      fun d hd args hargs a ha f hf hname e he => ?_⟩
    · obtain ⟨t, ht, -⟩ := ((hbuilt d hd).2.2.2.2 args hargs).2 a ha
      exact exists_typeOf_iff.1 ⟨t, ht⟩
    · obtain ⟨t, ht, hsame⟩ := ((hbuilt d hd).2.2.2.2 args hargs).2 a ha
      obtain ⟨spec, hspec⟩ := hfield.2 ((hbuilt d hd).2.1 f hf)
      obtain ⟨⟨e', he', ht'⟩, -⟩ := buildField_eq_ok hspec
      obtain rfl : e' = e := Option.some.inj (he'.symm.trans he)
      rw [hsame f hf hname spec hspec] at ht'
      exact ⟨t, typeOf_eq_ok_iff.1 ht', typeOf_eq_ok_iff.1 ht⟩
  · intro h
    obtain ⟨htyped, hargs, helements, ⟨hown, hpairs⟩, hlast, hsame⟩ := h
    refine ⟨fun d hd => ⟨helements d hd, htyped d hd, (hown d hd).1, (hown d hd).2, ?_⟩, hpairs⟩
    intro args hmem
    refine ⟨hlast d hd args hmem, fun a ha => ?_⟩
    obtain ⟨t, ht⟩ := exists_typeOf_iff.2 (hargs d hd args hmem a ha)
    refine ⟨t, ht, fun f hf hname spec hspec => ?_⟩
    obtain ⟨⟨e, he, ht'⟩, -⟩ := buildField_eq_ok hspec
    obtain ⟨t', hfield', harg⟩ := hsame d hd args hmem a ha f hf hname e he
    -- both are read as one type
    rw [typeOf_eq_ok_iff.2 harg] at ht
    rw [typeOf_eq_ok_iff.2 hfield'] at ht'
    cases ht
    cases ht'
    rfl

/-- A schema is built in three steps, all of which succeed. -/
theorem schema_eq_ok_iff {s : Schema} :
    file.schema = .ok s ↔ addDeclarations file file.resources ∅ = .ok s.resources
      ∧ checkReferences file s = .ok () ∧ s.checkAcyclic = .ok () := by
  constructor
  · exact parts_of_schema
  · intro h
    obtain ⟨hresources, hreferences, hacyclic⟩ := h
    simp [Source.File.schema, hresources, hreferences, hacyclic]

/-- **A schema is built from a file exactly when the file is valid.** -/
theorem schema_isOk_iff (file : File) : (∃ s, file.schema = .ok s) ↔ file.Valid := by
  constructor
  · intro h
    obtain ⟨s, hs⟩ := h
    obtain ⟨hresources, hreferences, hacyclic⟩ := parts_of_schema hs
    have hm : Merged file file.resources s.resources := by
      simpa using merged_addDeclarations merged_nil hresources
    obtain ⟨htyped, hargs, helements, honce, hlast, hsame⟩ :=
      addDeclarations_isOk_iff_valid.1 ⟨_, hresources⟩
    obtain ⟨hbase, hinit, hfields⟩ := compatibleAll_iff.1 honce
    exact ⟨htyped, hargs, helements, hbase, hinit, hfields, hlast, hsame,
      (checkReferences_isOk_iff hm).1 hreferences, (checkAcyclic_isOk_iff hm).1 hacyclic⟩
  · intro h
    have honce := compatibleAll_iff.2 ⟨h.oneBase, h.oneInit, h.fieldsOnce⟩
    obtain ⟨resources, hresources⟩ := addDeclarations_isOk_iff_valid.2
      ⟨h.typed, h.arguments, h.elements, honce, h.optionalLast, h.sameType⟩
    have hm : Merged file file.resources resources := by
      simpa using merged_addDeclarations merged_nil hresources
    exact ⟨⟨resources⟩, schema_eq_ok_iff.2 ⟨hresources,
      (checkReferences_isOk_iff hm).2 h.references, (checkAcyclic_isOk_iff hm).2 h.acyclic⟩⟩

end Valid

/-! ## §7. Packs with a dot in their names. -/

/-- A resource with one field, whose type is named after a pack called `a.b`. -/
def dottedPackFile : File where
  imports := []
  options := ∅
  resources :=
    [{ comments := [], isPrivate := false, isExtension := false, id := "file", defaults := none,
       list := none, body := [⟨[], .field ⟨"owner", none, some (.named "a.b.user")⟩, ⟨3, 3⟩⟩],
       pos := ⟨2, 1⟩ }]
  packs := Table.ofList [("a.b", ⟨Table.ofNames ["user"], "x"⟩)]

/-- A name is not looked for in a pack whose own name has a dot, although the
pack declares the resource: the pack would have to be called `a`. -/
theorem schema_refuses_dotted_pack :
    ¬ ∀ file : File, (∃ s, file.schema = .ok s) ↔ file.ValidBy file.FromSomePack := by
  intro h
  have hrefused : (dottedPackFile.schema).isOk = false := by decide +kernel
  have hpack : ∃ rest, dottedPackFile.FromSomePack "a.b.user" rest :=
    ⟨"user", "a.b", ⟨Table.ofNames ["user"], "x"⟩, by decide, by decide +kernel, by decide +kernel⟩
  obtain ⟨s, hs⟩ := (h dottedPackFile).2
    { typed := by
        intro d hd f hf
        obtain rfl := List.mem_singleton.1 hd
        obtain rfl := List.mem_singleton.1 hf
        exact ⟨.named "a.b.user", rfl, List.forall_mem_singleton.2 (.inr (.inr hpack))⟩
      arguments := by simp [dottedPackFile, Declaration.inits]
      elements := by simp [dottedPackFile]
      oneBase := by
        intro id
        by_cases hid : "file" = id <;> simp [dottedPackFile, declarationsOf, hid]
      oneInit := by
        intro id
        by_cases hid : "file" = id <;>
          simp [dottedPackFile, declarationsOf, hid, Declaration.inits]
      fieldsOnce := by
        intro id
        by_cases hid : "file" = id <;>
          simp [dottedPackFile, declarationsOf, hid, Declaration.fieldNames, Declaration.fields,
            Item.field?]
      optionalLast := by simp [dottedPackFile, Declaration.inits]
      sameType := by simp [dottedPackFile, Declaration.inits]
      references := by
        simp [dottedPackFile, Declaration.fields, Item.field?, FieldDecl.references]
      acyclic := by
        intro node hcycle
        -- there is no reference at all
        have hnone : ∀ a b, ¬ dottedPackFile.Feeds a b := by
          simp [Source.File.Feeds, dottedPackFile, Declaration.fields, Item.field?,
            FieldDecl.references]
        cases hcycle with
        | single hedge => exact hnone _ _ hedge
        | tail _ hedge => exact hnone _ _ hedge }
  simp [hs, Except.isOk, Except.toBool] at hrefused

end LazyFields
