/-
  LazyFields.Proofs.Schema.RoundTrip
  ────────────────────────────────
  **A SCHEMA IS READ BACK FROM ITS TEXT.**

  Members that are empty or absent are left out of the text, and come back
  through their defaults.  A record is therefore read by what it holds under
  each of its keys (`record?_object`), and the members that were written are
  looked up there (`find_textMember` and its like).  Tables come back entry by
  entry, in their order (`table?_object`).

  The types of the schema must be LEGIBLE, everything else may be any text.
-/
import LazyFields.Proofs.FieldType.Text
import LazyFields.Proofs.Json.RoundTrip
import LazyFields.Schema.Json
import Mathlib.Data.List.Nodup

namespace LazyFields

open LazyFields.Json

/-! ## §1. Joined entries. -/

namespace Entries

variable {α : Type}

/-- What is found in two lists is found in the first one, or else in the second
one. -/
theorem find_append (k : String) (es fs : List (String × α)) :
    find k (es ++ fs) = (find k es).or (find k fs) := by
  induction es with
  | nil => simp
  | cons e es ih =>
    obtain ⟨k', v⟩ := e
    by_cases h : k' = k <;> simp [find_cons, h, ih]

end Entries

/-! ## §2. Records. -/

namespace Json.Tree

/-- Filling the slot of a key. -/
theorem set_idxOf {α : Type} {keys : List String} (hnodup : keys.Nodup) {k : String} {i : Nat}
    (hi : keys.idxOf? k = some i) (f : String → α) (x : α) :
    (keys.map f).set i x = keys.map fun k' => if k' = k then x else f k' := by
  obtain ⟨hlt, hget, -⟩ := List.idxOf?_eq_some_iff.1 hi
  subst hget
  refine List.ext_getElem (by simp) fun j hj hj' => ?_
  have hjlt : j < keys.length := by simpa using hj'
  rw [List.getElem_set, List.getElem_map, List.getElem_map]
  by_cases heq : i = j
  · subst heq
    simp
  · have hne : keys[j] ≠ keys[i] := fun hsame =>
      heq ((List.Nodup.getElem_inj_iff hnodup).1 hsame).symm
    simp [heq, hne]

/-- The members of an object fill the slots of their keys. -/
theorem fillSlots_memberTrees {keys : List String} (hkeys : keys.Nodup) :
    ∀ {ms : List (String × Json)} {f : String → Option Tree}, (ms.map Prod.fst).Nodup →
      (∀ m ∈ ms, f m.1 = none) →
      fillSlots keys (memberTrees ms) (keys.map f)
        = some (keys.map fun k => (f k).or ((Entries.find k ms).map tree)) := by
  intro ms
  induction ms with
  | nil =>
    intro f _ _
    simp [memberTrees, fillSlots]
  | cons m ms ih =>
    intro f hnodup hfree
    obtain ⟨key, v⟩ := m
    rw [List.map_cons, List.nodup_cons] at hnodup
    have hother : ∀ m ∈ ms, m.1 ≠ key := by
      intro m hm heq
      have hmem : m.1 ∈ ms.map Prod.fst := List.mem_map_of_mem hm
      rw [heq] at hmem
      exact hnodup.1 hmem
    rw [memberTrees, fillSlots, unitsText?_units]
    simp only [Option.bind_eq_bind, Option.bind_some]
    cases hi : keys.idxOf? key with
    | none =>
      -- a key that is none of the record's is ignored
      have hunknown := List.idxOf?_eq_none_iff.1 hi
      dsimp only
      rw [ih hnodup.2 fun m hm => hfree m (List.mem_cons_of_mem _ hm)]
      refine congrArg some (List.map_congr_left fun k hk => ?_)
      have hne : key ≠ k := fun heq => hunknown (heq ▸ hk)
      rw [Entries.find_cons, if_neg hne]
    | some i =>
      obtain ⟨hlt, hget, -⟩ := List.idxOf?_eq_some_iff.1 hi
      have hslot : (keys.map f)[i]? = some none := by
        rw [List.getElem?_map, List.getElem?_eq_getElem hlt, hget, Option.map_some,
          hfree _ List.mem_cons_self]
      simp only [hslot]
      rw [set_idxOf hkeys hi, ih hnodup.2]
      · refine congrArg some (List.map_congr_left fun k _ => ?_)
        rw [Entries.find_cons]
        by_cases heq : k = key
        · subst heq
          simp [hfree (k, v) List.mem_cons_self]
        · simp [heq, Ne.symm heq]
      · intro m hm
        rw [if_neg (hother m hm)]
        exact hfree m (List.mem_cons_of_mem _ hm)

/-- **A record is read by what it holds under each key.** -/
theorem record?_object {keys : List String} (hkeys : keys.Nodup) {ms : List (String × Json)}
    (hms : (ms.map Prod.fst).Sublist keys) :
    record? keys (Json.object ms).tree = some (keys.map fun k => (Entries.find k ms).map tree) := by
  rw [tree, record?]
  have hfill := fillSlots_memberTrees hkeys (hkeys.sublist hms) (f := fun _ => none)
    (fun _ _ => rfl)
  simpa using hfill

/-! ## §3. Lists and tables. -/

/-- A list is read back member by member. -/
theorem list?_array {α : Type} {f : Tree → Option α} {g : α → Json} {xs : List α}
    (h : ∀ x ∈ xs, f (g x).tree = some x) : list? f (Json.array (xs.map g)).tree = some xs := by
  rw [tree, itemTrees_eq_map, list?]
  induction xs with
  | nil => rfl
  | cons x xs ih =>
    have hx := h x List.mem_cons_self
    have hxs := ih fun y hy => h y (List.mem_cons_of_mem _ hy)
    rw [List.map_cons, List.map_cons, List.mapM_cons, hx, hxs]
    rfl

/-- **A table is read entry by entry.** -/
theorem table?_object {α : Type} {f : Tree → Option α} {g : α → Json} {t : Table α}
    (h : ∀ k v, t.get? k = some v → f (g v).tree = some v) :
    table? f (Json.object (t.map g).entries).tree = some t := by
  have hentries : ∀ es : List (String × α), (∀ e ∈ es, f (g e.2).tree = some e.2) →
      ((es.map fun e => (units e.1, (g e.2).tree)).mapM fun m => do
        let key ← unitsText? m.1
        let value ← f m.2
        return (key, value)) = some es := by
    intro es
    induction es with
    | nil => intro _; rfl
    | cons e es ih =>
      intro hes
      have he := hes e List.mem_cons_self
      have hrest := ih fun e he => hes e (List.mem_cons_of_mem _ he)
      simp only [Option.bind_eq_bind, Option.pure_def] at hrest
      simp [List.mapM_cons, he, hrest]
  have hall := hentries t.entries fun (k, v) he => h k v (Table.get?_eq_some_iff_mem.2 he)
  rw [tree, memberTrees_eq_map, Table.map, List.map_map, table?]
  have hlist : t.entries.map ((fun m : String × Json => (units m.1, m.2.tree))
      ∘ fun e => (e.1, g e.2)) = t.entries.map fun e => (units e.1, (g e.2).tree) := rfl
  rw [hlist]
  exact (congrArg (Option.map Table.ofList) hall).trans (by rw [Option.map_some, Table.ofList_entries])

/-! ## §4. Parts of a record. -/

/-- A string is read back. -/
@[simp] theorem string?_string (s : String) : string? (Json.string s).tree = some s := by
  simp [tree, string?]

/-- A truth value is read back. -/
@[simp] theorem bool?_bool (b : Bool) : bool? (Json.bool b).tree = some b := by
  simp [tree, bool?]

@[simp] theorem withDefault?_some {α : Type} (default : α) (f : Tree → Option α) (s : Tree) :
    withDefault? default f (some s) = f s := rfl

/-- A legible type is read back from its text. -/
theorem type?_text {t : FieldType} (h : t.Legible) :
    type? (Json.string t.text).tree = some t := by
  simp [type?, FieldType.ofText_text h]

/-- One part read, and on to the next.  As a step of `rw` it leaves the parts
behind it alone, where `simp` would enter them once for each part before. -/
theorem some_bind {α β : Type} (a : α) (f : α → Option β) : (some a >>= f) = f a := rfl

end Json.Tree

/-- A text is a member unless it is empty. -/
theorem find_textMember (k key text : String) :
    Entries.find k (textMember key text)
      = if key = k ∧ text ≠ "" then some (.string text) else none := by
  unfold textMember
  by_cases htext : text = "" <;> by_cases hkey : key = k <;> simp [Entries.find_cons, htext, hkey]

/-- A text that was left out is the default. -/
theorem withDefault?_text (text : String) :
    Tree.withDefault? "" Tree.string? ((if text = "" then none else some (Json.string text)).map tree)
      = some text := by
  by_cases htext : text = ""
  · simp [htext, Tree.withDefault?]
  · simp [htext, Tree.withDefault?]

/-- The key of a text is at most one. -/
theorem sublist_textMember (key text : String) :
    ((textMember key text).map Prod.fst).Sublist [key] := by
  unfold textMember
  split
  · exact List.nil_sublist _
  · exact List.Sublist.refl _

/-! ## §5. Records of a schema. -/

/-- A parameter is read back, if its type is legible. -/
theorem Parameter.ofTree?_toJson {a : Parameter} (h : a.type.Legible) :
    Parameter.ofTree? a.toJson.tree = some a := by
  have hkeys : ([("name", Json.string a.name), ("type", .string a.type.text),
      ("optional", .bool a.optional)].map Prod.fst).Sublist ["name", "type", "optional"] :=
    List.Sublist.refl _
  rw [Parameter.ofTree?, Parameter.toJson, Tree.record?_object (by decide) hkeys]
  simp [Entries.find_cons, Tree.type?_text h]

namespace FieldSpec

variable (f : FieldSpec)

/-- The references, left out when there are none. -/
def refsMember : List (String × Json) :=
  if f.refs = [] then [] else [("refs", .array (f.refs.map .string))]

/-- The members of a field. -/
def members : List (String × Json) :=
  [("name", .string f.name), ("type", .string f.type.text), ("mandatory", .bool f.mandatory)]
    ++ f.refsMember ++ textMember "title" f.title ++ textMember "desc" f.desc
    ++ [("isEmbedded", .bool f.isEmbedded)]

/-- A field is written member by member. -/
theorem toJson_eq : f.toJson = .object f.members := rfl

/-- The members of a field are among the known ones, in order and once. -/
theorem sublist_members : (f.members.map Prod.fst).Sublist
    ["name", "type", "mandatory", "refs", "title", "desc", "isEmbedded"] := by
  have hrefs : (f.refsMember.map Prod.fst).Sublist ["refs"] := by
    unfold refsMember
    split
    · exact List.nil_sublist _
    · exact List.Sublist.refl _
  simp only [members, List.map_append]
  exact .append (.append (.append (.append (.refl ["name", "type", "mandatory"]) hrefs)
    (sublist_textMember "title" _)) (sublist_textMember "desc" _)) (.refl ["isEmbedded"])

/-- References are a member unless there are none. -/
theorem find_refsMember (k : String) : Entries.find k f.refsMember
    = if "refs" = k ∧ f.refs ≠ [] then some (.array (f.refs.map .string)) else none := by
  unfold refsMember
  by_cases hrefs : f.refs = [] <;> by_cases hkey : "refs" = k <;>
    simp [Entries.find_cons, hrefs, hkey]

/-- References are read back, also if there are none. -/
theorem withDefault?_refs :
    Tree.withDefault? [] (Tree.list? Tree.string?)
      ((if f.refs = [] then none else some (Json.array (f.refs.map .string))).map tree)
      = some f.refs := by
  by_cases hrefs : f.refs = []
  · simp [hrefs, Tree.withDefault?]
  · have hlist : Tree.list? Tree.string? (Json.array (f.refs.map .string)).tree = some f.refs :=
      Tree.list?_array fun s _ => Tree.string?_string s
    simp [hrefs, Tree.withDefault?, hlist]

/-- What a field holds under each key. -/
theorem map_find_members :
    ["name", "type", "mandatory", "refs", "title", "desc", "isEmbedded"].map
        (fun k => (Entries.find k f.members).map tree)
      = [some (Json.string f.name).tree, some (Json.string f.type.text).tree,
        some (Json.bool f.mandatory).tree,
        (if f.refs = [] then none else some (Json.array (f.refs.map .string))).map tree,
        (if f.title = "" then none else some (Json.string f.title)).map tree,
        (if f.desc = "" then none else some (Json.string f.desc)).map tree,
        some (Json.bool f.isEmbedded).tree] := by
  simp [members, Entries.find_append, Entries.find_cons, find_textMember, find_refsMember]

variable {f}

/-- A field is read back, if its type is legible. -/
theorem ofTree?_toJson (h : f.type.Legible) : FieldSpec.ofTree? f.toJson.tree = some f := by
  rw [FieldSpec.ofTree?, toJson_eq, Tree.record?_object (by decide) f.sublist_members,
    map_find_members, Tree.some_bind]
  dsimp only
  rw [Tree.some_bind, Tree.string?_string, Tree.some_bind,
    Tree.some_bind, Tree.type?_text h, Tree.some_bind,
    Tree.withDefault?_some, Tree.bool?_bool, Tree.some_bind,
    withDefault?_refs, Tree.some_bind,
    withDefault?_text, Tree.some_bind,
    withDefault?_text, Tree.some_bind,
    Tree.withDefault?_some, Tree.bool?_bool, Tree.some_bind]
  rfl

end FieldSpec

/-! ## §6. Resources and schemas. -/

namespace ResourceSpec

variable (r : ResourceSpec)

/-- The constructor, left out when there is none. -/
def initMember : List (String × Json) :=
  match r.init with
  | none => []
  | some args => [("init", .object [("args", .array (args.map Parameter.toJson))])]

/-- The type of the elements, left out when there is none. -/
def listTypeMember : List (String × Json) :=
  match r.listType with
  | none => []
  | some t => [("listType", .string t.text)]

/-- The members of a resource. -/
def members : List (String × Json) :=
  [("id", .string r.id), ("name", .string r.name)]
    ++ textMember "title" r.title ++ textMember "desc" r.desc ++ r.initMember
    ++ [("private", .bool r.isPrivate), ("isExtension", .bool r.isExtension)]
    ++ textMember "defaults" r.defaults
    ++ [("fields", .object (r.fields.map FieldSpec.toJson).entries)] ++ r.listTypeMember

/-- A resource is written member by member. -/
theorem toJson_eq : r.toJson = .object r.members := rfl

/-- The members of a resource are among the known ones, in order and once. -/
theorem sublist_members : (r.members.map Prod.fst).Sublist
    ["id", "name", "title", "desc", "init", "private", "isExtension", "defaults", "fields",
      "listType"] := by
  have hinit : (r.initMember.map Prod.fst).Sublist ["init"] := by
    unfold initMember
    split
    · exact List.nil_sublist _
    · exact List.Sublist.refl _
  have hlist : (r.listTypeMember.map Prod.fst).Sublist ["listType"] := by
    unfold listTypeMember
    split
    · exact List.nil_sublist _
    · exact List.Sublist.refl _
  simp only [members, List.map_append]
  exact .append (.append (.append (.append (.append (.append (.append (.refl ["id", "name"])
    (sublist_textMember "title" _)) (sublist_textMember "desc" _)) hinit)
    (.refl ["private", "isExtension"])) (sublist_textMember "defaults" _)) (.refl ["fields"])) hlist

/-- An init is a member if there is one. -/
theorem find_initMember (k : String) : Entries.find k r.initMember
    = if "init" = k then
        r.init.map fun args => .object [("args", .array (args.map Parameter.toJson))]
      else none := by
  unfold initMember
  cases r.init <;> by_cases hkey : "init" = k <;> simp [Entries.find_cons, hkey]

/-- A list type is a member if there is one. -/
theorem find_listTypeMember (k : String) : Entries.find k r.listTypeMember
    = if "listType" = k then r.listType.map fun t => .string t.text else none := by
  unfold listTypeMember
  cases r.listType <;> by_cases hkey : "listType" = k <;> simp [Entries.find_cons, hkey]

/-- What a resource holds under each key. -/
theorem map_find_members :
    ["id", "name", "title", "desc", "init", "private", "isExtension", "defaults", "fields",
        "listType"].map (fun k => (Entries.find k r.members).map tree)
      = [some (Json.string r.id).tree, some (Json.string r.name).tree,
        (if r.title = "" then none else some (Json.string r.title)).map tree,
        (if r.desc = "" then none else some (Json.string r.desc)).map tree,
        (r.init.map fun args => Json.object [("args", .array (args.map Parameter.toJson))]).map tree,
        some (Json.bool r.isPrivate).tree, some (Json.bool r.isExtension).tree,
        (if r.defaults = "" then none else some (Json.string r.defaults)).map tree,
        some (Json.object (r.fields.map FieldSpec.toJson).entries).tree,
        (r.listType.map fun t => Json.string t.text).map tree] := by
  simp [-Option.map_map, members, Entries.find_append, Entries.find_cons, find_textMember,
    find_initMember, find_listTypeMember]

/-- Every type of the resource can be told from its text. -/
structure Legible : Prop where
  fields : ∀ name f, r.fields.get? name = some f → f.type.Legible
  args : ∀ args, r.init = some args → ∀ a ∈ args, a.type.Legible
  element : ∀ t, r.listType = some t → t.Legible

variable {r}

/-- The parameters of an init are read back. -/
theorem initOfTree?_args {args : List Parameter} (h : ∀ a ∈ args, a.type.Legible) :
    initOfTree? (Json.object [("args", .array (args.map Parameter.toJson))]).tree = some args := by
  have hkeys : ([("args", Json.array (args.map Parameter.toJson))].map Prod.fst).Sublist ["args"] :=
    List.Sublist.refl _
  rw [initOfTree?, Tree.record?_object (by decide) hkeys]
  have hlist := Tree.list?_array fun a ha => Parameter.ofTree?_toJson (h a ha)
  simp [Entries.find_cons, hlist]

/-- An init is read back, also if there is none. -/
theorem optional?_init (h : r.Legible) :
    Tree.optional? initOfTree? ((r.init.map fun args =>
      Json.object [("args", .array (args.map Parameter.toJson))]).map tree) = some r.init := by
  cases hinit : r.init with
  | none => rfl
  | some args =>
    have hread := initOfTree?_args (h.args args hinit)
    rw [tree] at hread
    simp [tree, Tree.optional?, hread]

/-- A list type is read back, also if there is none. -/
theorem optional?_listType (h : r.Legible) :
    Tree.optional? Tree.type? ((r.listType.map fun t => Json.string t.text).map tree)
      = some r.listType := by
  cases hlist : r.listType with
  | none => rfl
  | some t =>
    have hread := Tree.type?_text (h.element t hlist)
    rw [tree] at hread
    simp [tree, Tree.optional?, hread]

/-- A resource is read back, if it is legible. -/
theorem ofTree?_toJson (h : r.Legible) : ResourceSpec.ofTree? r.toJson.tree = some r := by
  have hfields : Tree.table? FieldSpec.ofTree? (Json.object (r.fields.map FieldSpec.toJson).entries).tree
      = some r.fields :=
    Tree.table?_object fun k f hf => FieldSpec.ofTree?_toJson (h.fields k f hf)
  rw [ResourceSpec.ofTree?, toJson_eq, Tree.record?_object (by decide) r.sublist_members,
    map_find_members, Tree.some_bind]
  dsimp only
  rw [Tree.some_bind, Tree.string?_string, Tree.some_bind,
    Tree.some_bind, Tree.string?_string, Tree.some_bind,
    withDefault?_text, Tree.some_bind,
    withDefault?_text, Tree.some_bind,
    optional?_init h, Tree.some_bind,
    Tree.withDefault?_some, Tree.bool?_bool, Tree.some_bind,
    Tree.withDefault?_some, Tree.bool?_bool, Tree.some_bind,
    withDefault?_text, Tree.some_bind,
    Tree.some_bind, hfields, Tree.some_bind,
    optional?_listType h, Tree.some_bind]
  rfl

end ResourceSpec

namespace Schema

/-- Every type of the schema can be told from its text. -/
def Legible (s : Schema) : Prop := ∀ id r, s.resources.get? id = some r → r.Legible

variable {s : Schema}

/-- A schema is read back, if it is legible. -/
theorem ofTree?_toJson (h : s.Legible) : Schema.ofTree? s.toJson.tree = some s := by
  have hkeys : ([("resources", Json.object (s.resources.map ResourceSpec.toJson).entries)].map
      Prod.fst).Sublist ["resources"] := List.Sublist.refl _
  have hresources : Tree.table? ResourceSpec.ofTree?
      (Json.object (s.resources.map ResourceSpec.toJson).entries).tree = some s.resources :=
    Tree.table?_object fun id r hr => ResourceSpec.ofTree?_toJson (h id r hr)
  rw [Schema.ofTree?, toJson, Tree.record?_object (by decide) hkeys]
  simp [Entries.find_cons, hresources]

end Schema

/-! ## §7. There are no numbers. -/

/-- Texts are plain. -/
theorem plain_textMember {key text : String} : ∀ m ∈ textMember key text, m.2.Plain := by
  unfold textMember
  split <;> simp

/-- A table of plain values is plain. -/
theorem plain_table {α : Type} {g : α → Json} (hg : ∀ v, (g v).Plain) (t : Table α) :
    (Json.object (t.map g).entries).Plain := by
  rw [plain_object_iff]
  intro m hm
  obtain ⟨e, -, rfl⟩ := List.mem_map.1 hm
  exact hg e.2

/-- A list of plain values is plain. -/
theorem plain_array {α : Type} {g : α → Json} (hg : ∀ v, (g v).Plain) (vs : List α) :
    (Json.array (vs.map g)).Plain := by
  rw [plain_array_iff]
  intro v hv
  obtain ⟨x, -, rfl⟩ := List.mem_map.1 hv
  exact hg x

/-- A parameter is written plainly. -/
theorem plain_parameter (a : Parameter) : a.toJson.Plain := by
  simp [Parameter.toJson]

/-- So is a field. -/
theorem plain_field (f : FieldSpec) : f.toJson.Plain := by
  have hrefs : ∀ m ∈ f.refsMember, m.2.Plain := by
    unfold FieldSpec.refsMember
    split <;> simp
  rw [FieldSpec.toJson_eq, plain_object_iff]
  simp only [FieldSpec.members, List.forall_mem_append]
  exact ⟨⟨⟨⟨by simp, hrefs⟩, plain_textMember⟩, plain_textMember⟩, by simp⟩

/-- So is a resource. -/
theorem plain_resource (r : ResourceSpec) : r.toJson.Plain := by
  have hinit : ∀ m ∈ r.initMember, m.2.Plain := by
    unfold ResourceSpec.initMember
    split
    · simp
    · next args _ =>
      simpa using plain_array plain_parameter args
  have hlist : ∀ m ∈ r.listTypeMember, m.2.Plain := by
    unfold ResourceSpec.listTypeMember
    split <;> simp
  have hfields := plain_table plain_field r.fields
  rw [ResourceSpec.toJson_eq, plain_object_iff]
  simp only [ResourceSpec.members, List.forall_mem_append]
  exact ⟨⟨⟨⟨⟨⟨⟨by simp, plain_textMember⟩, plain_textMember⟩, hinit⟩, by simp⟩,
    plain_textMember⟩, by simpa using hfields⟩, hlist⟩

/-- So is a schema: there are no numbers in it. -/
theorem plain_schema (s : Schema) : s.toJson.Plain := by
  have hresources := plain_table plain_resource s.resources
  simpa [Schema.toJson] using hresources

/-! ## §8. The round trip. -/

/-- **A schema with legible types is read back from its text,** so that what
was read has the same text and the same digest. -/
theorem Schema.text_round_trip (s : Schema) (h : s.Legible) :
    Schema.ofText s.text = .ok s
      ∧ ∀ t, Schema.ofText s.text = .ok t → t.text = s.text ∧ t.digest = s.digest := by
  have hread : Schema.ofText s.text = .ok s := by
    rw [Schema.ofText, Schema.text, read?_pretty (plain_schema s), Option.bind_some,
      ofTree?_toJson h]
  refine ⟨hread, fun t ht => ?_⟩
  rw [hread] at ht
  cases ht
  exact ⟨rfl, rfl⟩

/-- A schema with quotes, a control character and a character beyond the basic
plane in its texts, with parts left out and parts present. -/
def escapedSchema : Schema where
  resources := Table.ofList [("os.file",
    { id := "os.file", name := "a \"file\"\n", title := "\x01\\", desc := "",
      init := some [⟨"path", .string, true⟩], isPrivate := false, isExtension := true,
      defaults := "𝄞",
      fields := Table.ofList [("owners", ⟨"owners", .map .string (.array (.resource "os.user")),
        false, ["path", "os.user.name"], "", "", true⟩)],
      listType := some (.resource "os.file") })]

/-- All names and types of the example are legible. -/
theorem escapedSchema_legible : escapedSchema.Legible := by
  intro id r hr
  obtain ⟨-, rfl⟩ : "os.file" = id ∧ _ = r := by
    simpa [escapedSchema, Table.ofList, Table.get?, Entries.sort, Entries.put, Entries.find_cons]
      using hr
  constructor
  · intro name f hf
    obtain ⟨-, rfl⟩ : "owners" = name ∧ _ = f := by
      simpa [Table.ofList, Table.get?, Entries.sort, Entries.put, Entries.find_cons] using hf
    exact ⟨rfl, trivial, by decide, by decide⟩
  · intro args hargs a ha
    cases hargs
    obtain rfl := List.mem_singleton.1 ha
    trivial
  · intro t ht
    cases ht
    exact ⟨by decide, by decide⟩

/-- The example, with every character that is escaped, is read back. -/
theorem escapedSchema_read_back :
    escapedSchema.Legible ∧ Schema.ofText escapedSchema.text = .ok escapedSchema
      ∧ ∀ t, Schema.ofText escapedSchema.text = .ok t →
        t.text = escapedSchema.text ∧ t.digest = escapedSchema.digest :=
  ⟨escapedSchema_legible, Schema.text_round_trip escapedSchema escapedSchema_legible⟩

end LazyFields
