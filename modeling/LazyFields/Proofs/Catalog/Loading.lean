/-
  LazyFields.Proofs.Catalog.Loading
  ────────────────────────────────
  **WHAT THE STEPS OF A CATALOG DO TO ITS KINDS.**

  Loading a schema and changing a kind each go through several definitions.
  There is one lemma for each of them here, and nothing after it opens them:

    · `get?_kinds_load`  — the kind under each key after a schema was loaded
    · `schema_load`      — loading merges the schema into that of the catalog
    · `Kind.bind_eq_ok`, `modifyKind_eq_ok` — what a change did if it succeeds
    · `schema_modifyKind` — a change of the logic keeps the schema
-/
import LazyFields.Catalog

namespace LazyFields

/-! ## §1. Tables. -/

namespace Table

variable {α β : Type}

theorem map_insert (f : α → β) (t : Table α) (k : String) (v : α) :
    (t.insert k v).map f = (t.map f).insert k (f v) := by
  refine Table.ext_get? fun k' => ?_
  rw [Table.get?_map, Table.get?_insert, Table.get?_insert, Table.get?_map]
  split <;> rfl

/-- Merging tables merges what they have under each name. -/
theorem get?_mergeWith (f : α → α → α) (s t : Table α) (k : String) :
    (s.mergeWith f t).get? k = Option.merge f (s.get? k) (t.get? k) := by
  obtain ⟨es, hsorted⟩ := t
  show (es.foldl _ s).get? k = Option.merge f (s.get? k) (Entries.find k es)
  induction es generalizing s with
  | nil => cases h : s.get? k <;> simp [h]
  | cons e es ih =>
    obtain ⟨k', v⟩ := e
    rw [List.foldl_cons, ih _ hsorted.of_cons, Entries.find_cons, Table.get?_insert]
    by_cases heq : k' = k
    · subst heq
      -- the name does not come again
      have hlater : Entries.find k' es = none :=
        Entries.find_eq_none_of_lt fun e he => List.rel_of_pairwise_cons hsorted he
      rw [if_pos rfl, if_pos rfl, hlater]
      cases h : s.get? k' <;> simp
    · rw [if_neg heq, if_neg heq]

/-- What is kept in merged tables is kept in one of them, or made of what both keep. -/
theorem mergeWith_cases {f : α → α → α} {s t : Table α} {k : String} {v : α}
    (h : (s.mergeWith f t).get? k = some v) :
    s.get? k = some v ∨ t.get? k = some v
      ∨ ∃ a b, s.get? k = some a ∧ t.get? k = some b ∧ v = f a b := by
  rw [get?_mergeWith] at h
  cases hs : s.get? k with
  | none => exact Or.inr (Or.inl (by simpa [hs] using h))
  | some a =>
    cases ht : t.get? k with
    | none => exact Or.inl (by simpa [hs, ht] using h)
    | some b => exact Or.inr (Or.inr ⟨a, b, rfl, rfl, by simpa [hs, ht] using h.symm⟩)

end Table

theorem Schema.empty_merge (s : Schema) : (∅ : Schema).merge s = s := by
  refine congrArg Schema.mk (Table.ext_get? fun id => ?_)
  rw [Table.get?_mergeWith]
  exact Option.merge_none_left

/-! ## §2. Kinds. -/

/-- What is kept under the id of a resource once it was loaded: what was there,
with what the resource adds to it, or a new kind. -/
def Kind.gaining (known : Option Kind) (info : ResourceSpec) : Kind :=
  match known with
  | some k => { k with info := k.info.merge info }
  | none => .ofInfo info

/-- Logic was bound, so the field is known and computed. -/
theorem Kind.bind_eq_ok {k k' : Kind} {field : String} {logic : ComputeLogic}
    (h : k.bind field logic = .ok k') :
    (∃ spec, k.info.field? field = some spec ∧ spec.isStatic = false)
      ∧ k' = { k with computes := k.computes.insert field logic } := by
  unfold Kind.bind at h
  split at h
  · simp at h
  · next spec hspec =>
    split at h
    · simp at h
    · next hstatic =>
      cases h
      exact ⟨⟨spec, hspec, by simpa using hstatic⟩, rfl⟩

namespace Catalog

/-! ## §3. Loading. -/

/-- **Loading changes the kinds of the schema's ids, each on its own.** -/
theorem get?_kinds_load (c : Catalog) (s : Schema) (key : String) :
    (c.load s).kinds.get? key
      = (s.resources.get? key).elim (c.kinds.get? key) fun info =>
          some (.gaining (c.kinds.get? key) info) := by
  obtain ⟨⟨entries, hsorted⟩⟩ := s
  obtain ⟨kinds, packs⟩ := c
  show (entries.foldl (fun ks e => loadResource ks e.1 e.2) kinds).get? key
    = (Entries.find key entries).elim (kinds.get? key) fun info =>
        some (.gaining (kinds.get? key) info)
  induction entries generalizing kinds with
  | nil => rfl
  | cons e entries ih =>
    obtain ⟨id, info⟩ := e
    have hentry : loadResource kinds id info = kinds.insert id (.gaining (kinds.get? id) info) := by
      unfold loadResource Kind.gaining
      cases kinds.get? id <;> rfl
    rw [List.foldl_cons, ih hsorted.of_cons, hentry, Table.get?_insert, Entries.find_cons]
    by_cases hkey : id = key
    · subst hkey
      -- the id does not come again
      have hlater : Entries.find id entries = none :=
        Entries.find_eq_none_of_lt fun e he => List.rel_of_pairwise_cons hsorted he
      rw [hlater]
      simp
    · simp [hkey]

theorem get?_kinds_loadPack (c : Catalog) (pack : String) (s : Schema) (key : String) :
    (c.loadPack pack s).kinds.get? key = (c.load s).kinds.get? key := by
  rw [get?_kinds_load]
  exact get?_kinds_load { c with packs := c.packs.insert pack () } s key

/-- Loading a schema merges it into that of the catalog. -/
theorem schema_load (c : Catalog) (s : Schema) : (c.load s).schema = c.schema.merge s := by
  refine congrArg Schema.mk (Table.ext_get? fun key => ?_)
  rw [Table.get?_map, get?_kinds_load]
  show _ = ((c.kinds.map Kind.info).mergeWith ResourceSpec.merge s.resources).get? key
  rw [Table.get?_mergeWith, Table.get?_map]
  cases s.resources.get? key <;> cases c.kinds.get? key <;> rfl

/-! ## §4. Changing a kind. -/

section Change

variable {c c' : Catalog} {name : String} {f : Kind → Except Error Kind}

/-- Changing a kind puts what becomes of it in its place. -/
theorem modifyKind_eq_ok (h : c.modifyKind name f = .ok c') :
    ∃ key k k', c.kinds.get? key = some k ∧ f k = .ok k'
      ∧ c' = { c with kinds := c.kinds.insert key k' } := by
  unfold modifyKind at h
  cases hkey : c.keyOf name with
  | error e => simp [hkey, Bind.bind, Except.bind] at h
  | ok own =>
    simp only [hkey, Bind.bind, Except.bind] at h
    cases hk : c.kinds.get? own with
    | none => simp [hk] at h
    | some k =>
      simp only [hk] at h
      cases hfk : f k with
      | error e => simp [hfk] at h
      | ok k' =>
        simp only [hfk, Except.ok.injEq] at h
        exact ⟨own, k, k', hk, hfk, h.symm⟩

/-- A change of the logic keeps the schema. -/
theorem schema_modifyKind (hf : ∀ k k', f k = .ok k' → k'.info = k.info)
    (h : c.modifyKind name f = .ok c') : c'.schema = c.schema := by
  obtain ⟨key, k, k', hk, hfk, rfl⟩ := modifyKind_eq_ok h
  have hinfo : (c.kinds.map Kind.info).get? key = some k'.info := by
    rw [Table.get?_map, hk, hf k k' hfk, Option.map_some]
  refine congrArg Schema.mk ?_
  rw [Table.map_insert]
  exact Table.insert_eq_self hinfo

end Change

end Catalog

end LazyFields
