/-
  LazyFields.Proofs.Catalog.History
  ────────────────────────────────
  **CATALOGS BY THE CALLS THAT MADE THEM.**

  A catalog starts empty, and each call loads a schema or sets logic of a known
  kind.  A call can be refused; then nothing changes (`after_cases`).  From this
  there is one lemma for what a call does to each of the following, and one for
  what holds after all calls:

    · the schema of the catalog: loading merges, setting logic changes nothing
      (`schema_after`, `schema_ofCalls`)
    · the logic of known kinds, which loading keeps (`kinds_after_of_loads`)
    · the fields with logic, which are computed fields of their kinds
      (`bindsComputed_after`, `bindsComputed_ofCalls`)

  A kind tells the fields it has logic for by their keys, and those it has none for
  by their names, so the two lists make up the computed fields only where fields
  are kept under their own names (`bound_by_key`).
-/
import LazyFields.Proofs.Catalog.Packed

namespace LazyFields

open Schema (mergeAll)

/-! ## §1. Schemas and kinds. -/

/-- Fields stay under their own names when schemas are merged. -/
theorem Schema.Keyed.merge {s t : Schema} (h : s.Keyed) (ht : t.Keyed) : (s.merge t).Keyed := by
  intro id info hinfo
  obtain hours | htheirs | ⟨ours, theirs, hours, htheirs, rfl⟩ := Table.mergeWith_cases hinfo
  · exact h id info hours
  · exact ht id info htheirs
  · exact (h id ours hours).merge (ht id theirs htheirs)

namespace Kind

variable {k k' : Kind}

/-- Only computed fields have logic. -/
def BindsComputed (k : Kind) : Prop := ∀ field ∈ k.computes.keys, field ∈ k.info.computed

/-- The fields without logic and those with logic are the computed fields, each once. -/
def Divides (k : Kind) : Prop := (k.unbound ++ k.computes.keys).Perm k.info.computed

/-- Binding a computed field keeps logic to computed fields. -/
theorem BindsComputed.bind (h : k.BindsComputed) {field : String} {logic : ComputeLogic}
    (hbind : k.bind field logic = .ok k') : k'.BindsComputed := by
  obtain ⟨hspec, rfl⟩ := bind_eq_ok hbind
  intro other hother
  rw [← Table.contains_iff_mem_keys, Table.contains, Table.get?_insert] at hother
  split at hother
  · next heq => exact heq ▸ ResourceSpec.mem_computed.2 hspec
  · exact h other (Table.contains_iff_mem_keys.1 hother)

/-- Merging adds fields and changes none. -/
theorem BindsComputed.merge (h : k.BindsComputed) (info : ResourceSpec) :
    ({ k with info := k.info.merge info } : Kind).BindsComputed := by
  intro field hfield
  obtain ⟨spec, hspec, hstatic⟩ := ResourceSpec.mem_computed.1 (h field hfield)
  refine ResourceSpec.mem_computed.2 ⟨spec, ?_, hstatic⟩
  have hown : k.info.fields.get? field = some spec := hspec
  show (k.info.fields.mergeWith _ info.fields).get? field = some spec
  rw [Table.get?_mergeWith, hown]
  cases info.fields.get? field <;> rfl

/-- The fields without logic, when fields are kept under their own names. -/
theorem unbound_perm (h : k.info.Keyed) :
    k.unbound.Perm (k.info.computed.filter fun name => !k.computes.contains name) := by
  refine (List.mergeSort_perm _ _).trans (List.Perm.of_eq ?_)
  have hname : ∀ e ∈ k.info.fields.entries, e.2.name = e.1 := fun e he =>
    h e.1 e.2 (Table.get?_eq_some_iff_mem.2 he)
  show ((k.info.fields.entries.map Prod.snd).filter _).map _
    = ((k.info.fields.entries.filter _).map Prod.fst).filter _
  rw [List.filter_map, List.map_map, List.filter_map, List.filter_filter]
  refine (congrArg (List.map _) (List.filter_congr fun e he => ?_)).trans
    (List.map_congr_left fun e he => hname e (List.mem_of_mem_filter he))
  simp [hname e he, Bool.and_comm]

/-- **Logic divides the computed fields,** when it is logic of computed fields. -/
theorem BindsComputed.divides (h : k.BindsComputed) (hkeyed : k.info.Keyed) : k.Divides := by
  have hcomputed : k.info.computed.Nodup := Table.nodup_keys _
  have hbound : k.computes.keys.Perm
      (k.info.computed.filter fun name => k.computes.contains name) := by
    refine (List.perm_ext_iff_of_nodup k.computes.nodup_keys (hcomputed.filter _)).2 fun name => ?_
    rw [List.mem_filter, Table.contains_iff_mem_keys]
    exact ⟨fun hname => ⟨h name hname, hname⟩, And.right⟩
  calc (k.unbound ++ k.computes.keys).Perm
        (k.info.computed.filter (fun name => !k.computes.contains name)
          ++ k.info.computed.filter fun name => k.computes.contains name) :=
        (unbound_perm hkeyed).append hbound
    _ |>.Perm k.info.computed :=
        List.perm_append_comm.trans (List.filter_append_perm _ _)

end Kind

namespace Catalog

/-! ## §2. Calls. -/

/-- What a catalog is asked to do. -/
inductive Call where
  | load (s : Schema)
  | loadPack (pack : String) (s : Schema)
  | loadText (text : String)
  | bind (name field : String) (logic : ComputeLogic)
  | withInit (name : String) (logic : InitLogic)
  | withId (name : String) (logic : IdLogic)

/-- The catalog that the call leads to. -/
def Call.run (c : Catalog) : Call → Except Error Catalog
  | .load s => .ok (c.load s)
  | .loadPack pack s => .ok (c.loadPack pack s)
  | .loadText text => c.loadText text
  | .bind name field logic => c.bind name field logic
  | .withInit name logic => c.modifyKind name fun k => .ok (k.withInit logic)
  | .withId name logic => c.modifyKind name fun k => .ok (k.withId logic)

/-- The schema that the call adds. -/
def Call.schema? : Call → Option Schema
  | .load s => some s
  | .loadPack _ s => some s
  | .loadText text => (Schema.ofText text).toOption
  | _ => none

/-- The catalog after the call, which may be refused. -/
def after (c : Catalog) (call : Call) : Catalog := (call.run c).toOption.getD c

/-- The catalog that is made by the calls. -/
def ofCalls (calls : List Call) : Catalog := calls.foldl after ∅

section Step

variable {c c' : Catalog} {call : Call} {s : Schema}

/-- A call that succeeds leads to its result. -/
theorem after_of_ok (h : call.run c = .ok c') : c.after call = c' := by
  rw [after, h]
  rfl

/-- A call that is refused changes nothing. -/
theorem after_of_error {e : Error} (h : call.run c = .error e) : c.after call = c := by
  rw [after, h]
  rfl

/-- The change leaves the fields of a kind alone, and gives logic to computed ones
only. -/
structure SetsLogic (f : Kind → Except Error Kind) : Prop where
  info : ∀ {k k'}, f k = .ok k' → k'.info = k.info
  bindsComputed : ∀ {k k'}, f k = .ok k' → k.BindsComputed → k'.BindsComputed

/-- Binding a field sets logic. -/
theorem setsLogic_bind (field : String) (logic : ComputeLogic) :
    SetsLogic fun k => k.bind field logic where
  info hbind := by rw [(Kind.bind_eq_ok hbind).2]
  bindsComputed hbind hk := hk.bind hbind

/-- Giving a kind an `init` function sets logic. -/
theorem setsLogic_withInit (logic : InitLogic) : SetsLogic fun k => .ok (k.withInit logic) where
  info hset := by
    cases hset
    rfl
  bindsComputed hset hk := by
    cases hset
    exact hk

/-- Giving a kind an `id` function sets logic. -/
theorem setsLogic_withId (logic : IdLogic) : SetsLogic fun k => .ok (k.withId logic) where
  info hset := by
    cases hset
    rfl
  bindsComputed hset hk := by
    cases hset
    exact hk

/-- **What a call can do:** it loads its schema, changes nothing, or sets logic. -/
theorem after_cases (c : Catalog) (call : Call) :
    (∃ s, call.schema? = some s ∧ (c.after call).kinds = (c.load s).kinds)
      ∨ call.schema? = none ∧ (c.after call = c
        ∨ ∃ name f, SetsLogic f ∧ c.modifyKind name f = .ok (c.after call)) := by
  -- logic for a name that leads nowhere is refused, and the catalog stays as it is
  have hset : ∀ {name f}, SetsLogic f → call.run c = c.modifyKind name f →
      c.after call = c ∨ ∃ name f, SetsLogic f ∧ c.modifyKind name f = .ok (c.after call) := by
    intro name f hf hrun
    cases hc : c.modifyKind name f with
    | error e => exact .inl (after_of_error (hrun.trans hc))
    | ok c' => exact .inr ⟨name, f, hf, by rw [hc, after_of_ok (hrun.trans hc)]⟩
  cases call with
  | load s => exact .inl ⟨s, rfl, rfl⟩
  | loadPack pack s => exact .inl ⟨s, rfl, Table.ext_get? (get?_kinds_loadPack c pack s)⟩
  | loadText text =>
    cases htext : Schema.ofText text with
    | error e =>
      have hrun : (Call.loadText text).run c = .error e := by
        rw [Call.run, loadText, htext]
        rfl
      exact .inr ⟨by rw [Call.schema?, htext]; rfl, .inl (after_of_error hrun)⟩
    | ok s =>
      have hrun : (Call.loadText text).run c = .ok (c.load s) := by
        rw [Call.run, loadText, htext]
        rfl
      exact .inl ⟨s, by rw [Call.schema?, htext]; rfl, by rw [after_of_ok hrun]⟩
  | bind name field logic => exact .inr ⟨rfl, hset (setsLogic_bind field logic) rfl⟩
  | withInit name logic => exact .inr ⟨rfl, hset (setsLogic_withInit logic) rfl⟩
  | withId name logic => exact .inr ⟨rfl, hset (setsLogic_withId logic) rfl⟩

/-- The schema after a call is the schema before, merged with the one that the call
adds. -/
theorem schema_after (c : Catalog) (call : Call) :
    (c.after call).schema = call.schema?.elim c.schema c.schema.merge := by
  rcases after_cases c call with ⟨s, hs, hkinds⟩ | ⟨hs, hsame | ⟨name, f, hf, hc⟩⟩
  · have hschema : (c.after call).schema = (c.load s).schema := by
      unfold schema
      rw [hkinds]
    rw [hs]
    exact hschema.trans (schema_load c s)
  · rw [hs, hsame]
    rfl
  · rw [hs]
    exact schema_modifyKind (fun _ _ hk => hf.info hk) hc

/-- Loading keeps the logic of a kind. -/
theorem kinds_after_of_loads (h : call.schema? = some s) {key : String} {k : Kind}
    (hk : c.kinds.get? key = some k) : ∃ k', (c.after call).kinds.get? key = some k'
      ∧ k'.computes = k.computes ∧ k'.init = k.init ∧ k'.idLogic = k.idLogic := by
  rcases after_cases c call with ⟨t, -, hkinds⟩ | ⟨hnone, -⟩
  · rw [hkinds, get?_kinds_load, hk]
    cases t.resources.get? key with
    | none => exact ⟨k, rfl, rfl, rfl, rfl⟩
    | some info => exact ⟨_, rfl, rfl, rfl, rfl⟩
  · rw [hnone] at h
    cases h

/-- Only computed fields have logic, in all kinds. -/
def BindsComputed (c : Catalog) : Prop := ∀ key k, c.kinds.get? key = some k → k.BindsComputed

/-- After any call, logic is given to computed fields only. -/
theorem bindsComputed_after (hc : c.BindsComputed) (call : Call) :
    (c.after call).BindsComputed := by
  intro key k hk
  rcases after_cases c call with ⟨s, -, hkinds⟩ | ⟨-, hsame | ⟨name, f, hf, hmodify⟩⟩
  · rw [hkinds] at hk
    refine kinds_of_load hc ?_ ?_ hk
    · intro id info _ field hfield
      cases hfield
    · exact fun k id info hk _ => hk.merge info
  · exact hc key k (hsame ▸ hk)
  · rcases kinds_of_modifyKind hmodify hk with hold | ⟨k₀, hk₀, hset⟩
    · exact hc key k hold
    · exact hf.bindsComputed hset (hc key k₀ hk₀)

end Step

/-! ## §3. All calls. -/

/-- The schema of a catalog is that of its calls, merged in order. -/
theorem schema_ofCalls (calls : List Call) :
    (ofCalls calls).schema = mergeAll (calls.filterMap Call.schema?) := by
  have hfold : ∀ (calls : List Call) (c : Catalog),
      (calls.foldl after c).schema = (calls.filterMap Call.schema?).foldl Schema.merge c.schema := by
    intro calls
    induction calls with
    | nil => exact fun c => rfl
    | cons call calls ih =>
      intro c
      rw [List.foldl_cons, ih, schema_after]
      cases h : call.schema? with
      | none => rw [List.filterMap_cons_none h]; rfl
      | some s => rw [List.filterMap_cons_some h]; rfl
  exact hfold calls ∅

/-- In a catalog that is made by calls, logic is given to computed fields only. -/
theorem bindsComputed_ofCalls (calls : List Call) : (ofCalls calls).BindsComputed := by
  refine List.foldlRecOn calls after ?_ fun c hc call _ => bindsComputed_after hc call
  intro key k hk
  cases hk

/-- A property that merging keeps holds of the schema of the catalog, if it holds
of all schemas that were loaded. -/
theorem schema_ofCalls_induction {P : Schema → Prop} {calls : List Call} (hempty : P ∅)
    (hmerge : ∀ s t, P s → P t → P (s.merge t))
    (h : ∀ call ∈ calls, ∀ s, call.schema? = some s → P s) : P (ofCalls calls).schema := by
  rw [schema_ofCalls]
  refine Schema.mergeAll_induction hempty hmerge fun s hs => ?_
  obtain ⟨call, hcall, hs⟩ := List.mem_filterMap.1 hs
  exact h call hcall s hs

/-- A kind of the catalog has its resource in the schema. -/
theorem get?_schema {c : Catalog} {key : String} {k : Kind} (hk : c.kinds.get? key = some k) :
    c.schema.resources.get? key = some k.info := by
  show (c.kinds.map Kind.info).get? key = _
  rw [Table.get?_map, hk, Option.map_some]

/-- Asking whether there is a kind, asking for it and changing it come to the same
kind, or to none. -/
def LeadsAlike (c : Catalog) (name : String) : Prop :=
  c.has name = (c.get name).isOk ∧ (c.keyOf name).isOk = (c.get name).isOk
    ∧ ∀ k, c.get name = .ok k → c.keyOf name = .ok k.name ∧ c.kinds.get? k.name = some k
      ∧ ∀ f, c.modifyKind name f
        = (f k).map fun k' => { c with kinds := c.kinds.insert k.name k' }

/-- Where resources are kept under their own ids, a name leads to the kind of that
resource. -/
theorem leadsAlike_of_named {c : Catalog} (h : c.schema.Named) (name : String) :
    c.LeadsAlike name := by
  -- whatever a name leads to stands under the name that it carries itself
  have hfound : ∀ k, c.get name = .ok k →
      c.keyOf name = .ok k.name ∧ c.kinds.get? k.name = some k := by
    intro k hget
    obtain ⟨key, hk⟩ := has_of_get hget
    have hname : k.name = key := h key k.info (get?_schema hk)
    subst hname
    refine ⟨?_, hk⟩
    rw [keyOf, hget]
    show (if c.kinds.contains k.name = true then _ else _) = _
    rw [if_pos]
    simp [Table.contains, hk]
  refine ⟨has_eq_isOk_get c name, ?_, ?_⟩
  · cases hget : c.get name with
    | error e =>
      rw [keyOf, hget]
      rfl
    | ok k =>
      rw [(hfound k hget).1]
      rfl
  · intro k hget
    obtain ⟨hkey, hk⟩ := hfound k hget
    refine ⟨hkey, hk, fun f => ?_⟩
    simp only [modifyKind, hkey, Bind.bind, Except.bind, hk]
    cases f k <;> rfl

/-- **Loading merges, and logic stays with computed fields.**  The schema of a
catalog is that of all loaded schemas, merged in turn.  No kind loses logic when
another schema is loaded.  Only computed fields have logic, and where the schemas
keep fields under their own names, those with logic and those without are all of
them.  Every name leads to one kind, however it is asked for. -/
theorem ofCalls_merges_and_binds (calls : List Call)
    (hnamed : ∀ call ∈ calls, ∀ s, call.schema? = some s → s.Named) :
    (ofCalls calls).schema = mergeAll (calls.filterMap Call.schema?)
      ∧ (∀ call s, call.schema? = some s → ∀ key k, (ofCalls calls).kinds.get? key = some k →
        ∃ k', (ofCalls (calls ++ [call])).kinds.get? key = some k'
          ∧ k'.computes = k.computes ∧ k'.init = k.init ∧ k'.idLogic = k.idLogic)
      ∧ (ofCalls calls).BindsComputed
      ∧ ((∀ call ∈ calls, ∀ s, call.schema? = some s → s.Keyed) →
        ∀ key k, (ofCalls calls).kinds.get? key = some k → k.Divides)
      ∧ ∀ name, (ofCalls calls).LeadsAlike name := by
  refine ⟨schema_ofCalls calls, ?_, bindsComputed_ofCalls calls, ?_, ?_⟩
  · intro call s hs key k hk
    have hlast : ofCalls (calls ++ [call]) = (ofCalls calls).after call := by simp [ofCalls]
    rw [hlast]
    exact kinds_after_of_loads hs hk
  · intro hkeyed key k hk
    have hschema : (ofCalls calls).schema.Keyed :=
      schema_ofCalls_induction (fun _ _ hinfo => nomatch hinfo) (fun _ _ hs ht => hs.merge ht) hkeyed
    exact (bindsComputed_ofCalls calls key k hk).divides (hschema key k.info (get?_schema hk))
  · have hschema : (ofCalls calls).schema.Named :=
      schema_ofCalls_induction (fun _ _ hinfo => nomatch hinfo) (fun _ _ hs ht => hs.merge ht) hnamed
    exact leadsAlike_of_named hschema

/-- A computed field gets its logic, then the resource is extended by a pack. -/
def boundThenExtended : List Call :=
  [.load (schemaOf (textFile false "r" [("s", none), ("g", some ["s"])] ∅)),
    .bind "r" "g" Sample.echo,
    .loadPack "p" (schemaOf (textFile true "r" [("f", some ["g"])] ∅))]

theorem ofCalls_merges_and_binds_extended :
    (∀ call ∈ boundThenExtended, ∀ s, call.schema? = some s → s.Named)
      ∧ (ofCalls boundThenExtended).schema = mergeAll (boundThenExtended.filterMap Call.schema?)
      ∧ ∃ k, (ofCalls boundThenExtended).get "p.r" = .ok k ∧ k.Divides
        ∧ k.computes.keys = ["g"] ∧ k.info.computed = ["f", "g"]
        ∧ (ofCalls boundThenExtended).keyOf "p.r" = .ok k.name := by
  -- both schemas are those of source files, whose resources carry their ids
  have haccepted : ∀ call ∈ boundThenExtended, ∀ s, call.schema? = some s →
      ∃ file : Source.File, file.schema = .ok s := by
    have hbase : (textFile false "r" [("s", none), ("g", some ["s"])] ∅).schema
        = .ok (schemaOf (textFile false "r" [("s", none), ("g", some ["s"])] ∅)) := by
      decide +kernel
    have hextension : (textFile true "r" [("f", some ["g"])] ∅).schema
        = .ok (schemaOf (textFile true "r" [("f", some ["g"])] ∅)) := by decide +kernel
    intro call hcall s hs
    simp only [boundThenExtended, List.mem_cons, List.not_mem_nil, or_false] at hcall
    rcases hcall with rfl | rfl | rfl <;> cases hs
    · exact ⟨_, hbase⟩
    · exact ⟨_, hextension⟩
  have hnamed : ∀ call ∈ boundThenExtended, ∀ s, call.schema? = some s → s.Named := by
    intro call hcall s hs id info hinfo
    obtain ⟨file, hfile⟩ := haccepted call hcall s hs
    exact (Schema.orderly_of_schema hfile).named hinfo
  obtain ⟨hschema, -, -, hdivides, hleads⟩ := ofCalls_merges_and_binds boundThenExtended hnamed
  refine ⟨hnamed, hschema, _, rfl, ?_, rfl, rfl, ((hleads "p.r").2.2 _ rfl).1⟩
  refine hdivides (fun call hcall s hs => ?_) "r" _ rfl
  obtain ⟨file, hfile⟩ := haccepted call hcall s hs
  exact keyed_of_schema hfile

/-- A schema whose one field is kept under a name that is not its own. -/
def misnamed : Schema :=
  ⟨Table.ofList [("file", { oneFieldSpec "file" "path" with
    fields := Table.ofList [("a", ⟨"b", .string, false, [], "", "", false⟩)] })]⟩

/-- Logic is bound by the key of a field; a field of another name then still counts
as one without logic. -/
theorem bound_by_key : ¬ ∀ calls : List Call,
    (∀ call ∈ calls, ∀ s, call.schema? = some s → s.Named) →
    ∀ key k, (ofCalls calls).kinds.get? key = some k → k.Divides := by
  intro h
  have hnamed : misnamed.Named := by
    intro id info hinfo
    have hmem : (id, info) ∈ misnamed.resources.entries := Table.get?_eq_some_iff_mem.1 hinfo
    obtain ⟨rfl, rfl⟩ := Prod.mk.inj (List.mem_singleton.1 hmem)
    rfl
  have hdivides := h [.load misnamed, .bind "file" "a" Sample.echo]
    (fun call hcall s hs => by
      simp only [List.mem_cons, List.not_mem_nil, or_false] at hcall
      rcases hcall with rfl | rfl <;> cases hs
      exact hnamed) "file" _ rfl
  have hlength := hdivides.length_eq
  rw [List.length_append, Kind.unbound, List.length_mergeSort] at hlength
  exact absurd hlength (by decide +kernel)

end Catalog

end LazyFields
