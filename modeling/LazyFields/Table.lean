/-
  LazyFields.Table
  ────────────────────────────────
  **SORTED TABLES OVER STRING KEYS.**

  Everything the library keeps by name (the resources of a schema, the
  fields of a resource, the slots of a cache, the watchers of a field) is
  read out in one order: by code point of the name, which is also the order
  of its UTF-8 bytes.  A `Table` is the list of its entries in that order,
  together with the proof that the keys strictly increase, so

      (∀ k, s.get? k = t.get? k)  →  s = t

  holds with plain equality (`Table.ext_get?`), and each operation is known
  by one equation on `get?`.

  The operations on bare entry lists (`Entries.put`, `Entries.find`) stand
  first: a map VALUE nests inside the type of values and can only hold the
  list.
-/

namespace LazyFields

/-! ## §1. Entry lists. -/

namespace Entries

variable {α β : Type}

/-- The keys strictly increase. -/
def Sorted (es : List (String × α)) : Prop :=
  es.Pairwise fun a b => a.1 < b.1

/-- The value stored under `k`. -/
def find (k : String) : List (String × α) → Option α
  | [] => none
  | (k', v) :: es => if k' = k then some v else find k es

/-- Store `v` under `k`, at its place in the order; an entry of the same key
is replaced. -/
def put (k : String) (v : α) : List (String × α) → List (String × α)
  | [] => [(k, v)]
  | (k', v') :: es =>
      if k < k' then (k, v) :: (k', v') :: es
      else if k = k' then (k, v) :: es
      else (k', v') :: put k v es

/-- Sort entries by key; of two with one key the later wins. -/
def sort (es : List (String × α)) : List (String × α) :=
  es.foldl (fun acc e => put e.1 e.2 acc) []

attribute [local simp] find put

@[simp] theorem find_nil (k : String) : find k ([] : List (String × α)) = none := rfl

/-- The value of a key is that of its first entry. -/
theorem find_cons (k k' : String) (v : α) (es : List (String × α)) :
    find k ((k', v) :: es) = if k' = k then some v else find k es := rfl

/-- Putting a value changes that key only. -/
theorem find_put (k k' : String) (v : α) (es : List (String × α)) :
    find k' (put k v es) = if k = k' then some v else find k' es := by
  induction es with
  | nil => simp
  | cons e es ih =>
    obtain ⟨k₂, v₂⟩ := e
    simp only [put]
    split
    · simp
    · split
      · next h => subst h; simp only [find]; split <;> rfl
      · next h =>
        simp only [find, ih]
        split
        · next h₂ => subst h₂; simp [h]
        · rfl

/-- An entry after a put is the new one, or was there. -/
theorem mem_put {k : String} {v : α} {e : String × α} {es : List (String × α)}
    (h : e ∈ put k v es) : e = (k, v) ∨ e ∈ es := by
  induction es with
  | nil => exact .inl (by simpa using h)
  | cons e' es ih =>
    obtain ⟨k₂, v₂⟩ := e'
    simp only [put] at h
    split at h
    · rcases List.mem_cons.1 h with h | h
      · exact .inl h
      · exact .inr h
    · split at h
      · rcases List.mem_cons.1 h with h | h
        · exact .inl h
        · exact .inr (List.mem_cons_of_mem _ h)
      · rcases List.mem_cons.1 h with h | h
        · exact .inr (h ▸ List.mem_cons_self)
        · exact (ih h).imp id (List.mem_cons_of_mem _)

/-- Of two strings, one is smaller. -/
theorem lt_of_not_lt_of_ne {a b : String} (h : ¬ a < b) (hne : a ≠ b) : b < a :=
  Decidable.byContradiction fun h' =>
    hne (String.le_antisymm (String.not_lt.1 h') (String.not_lt.1 h))

/-- Putting keeps entries sorted. -/
theorem sorted_put (k : String) (v : α) {es : List (String × α)} (h : Sorted es) :
    Sorted (put k v es) := by
  induction es with
  | nil => simp [Sorted]
  | cons e es ih =>
    obtain ⟨k₂, v₂⟩ := e
    have hhd : ∀ {e : String × α}, e ∈ es → k₂ < e.1 := List.rel_of_pairwise_cons h
    have htl : Sorted es := List.Pairwise.of_cons h
    simp only [put]
    split
    · next hlt =>
      refine List.Pairwise.cons (fun a ha => ?_) h
      rcases List.mem_cons.1 ha with ha | ha
      · exact ha ▸ hlt
      · exact String.lt_trans hlt (hhd ha)
    · split
      · next heq => subst heq; exact List.Pairwise.cons (fun a ha => hhd ha) htl
      · next hlt hne =>
        refine List.Pairwise.cons (fun a ha => ?_) (ih htl)
        rcases mem_put ha with ha | ha
        · exact ha ▸ lt_of_not_lt_of_ne hlt hne
        · exact hhd ha

/-- A key below all others is not there. -/
theorem find_eq_none_of_lt {k : String} {es : List (String × α)}
    (h : ∀ e ∈ es, k < e.1) : find k es = none := by
  induction es with
  | nil => rfl
  | cons e es ih =>
    obtain ⟨k₂, v₂⟩ := e
    have hk : k < k₂ := h (k₂, v₂) List.mem_cons_self
    have hne : k₂ ≠ k := fun he => String.lt_irrefl _ (he ▸ hk)
    simp only [find, hne, if_false]
    exact ih fun e he => h e (List.mem_cons_of_mem _ he)

/-- **Two sorted entry lists with the same look-ups are the same list.** -/
theorem eq_of_find_eq {es fs : List (String × α)} (hes : Sorted es) (hfs : Sorted fs)
    (h : ∀ k, find k es = find k fs) : es = fs := by
  induction es generalizing fs with
  | nil =>
    cases fs with
    | nil => rfl
    | cons f fs => obtain ⟨k, v⟩ := f; have := h k; simp at this
  | cons e es ih =>
    cases fs with
    | nil => obtain ⟨k, v⟩ := e; have := h k; simp at this
    | cons f fs =>
      obtain ⟨k, v⟩ := e
      obtain ⟨l, w⟩ := f
      have hlt {a b : String} {x : α} {gs : List (String × α)}
          (hs : Sorted ((a, x) :: gs)) (hab : b < a) : find b ((a, x) :: gs) = none :=
        find_eq_none_of_lt fun e he => by
          rcases List.mem_cons.1 he with he | he
          · exact he ▸ hab
          · exact String.lt_trans hab (List.rel_of_pairwise_cons hs he)
      have hkl : k = l := by
        have h₁ := h k
        have h₂ := h l
        by_cases hk : k = l
        · exact hk
        · by_cases hlt₁ : k < l
          · rw [hlt hfs hlt₁] at h₁; simp at h₁
          · rw [hlt hes (lt_of_not_lt_of_ne hlt₁ hk)] at h₂; simp at h₂
      subst hkl
      have hv : v = w := by simpa using h k
      subst hv
      have htail : es = fs := by
        refine ih (List.Pairwise.of_cons hes) (List.Pairwise.of_cons hfs) fun k' => ?_
        by_cases hk' : k = k'
        · subst hk'
          rw [find_eq_none_of_lt fun e he => List.rel_of_pairwise_cons hes he,
            find_eq_none_of_lt fun e he => List.rel_of_pairwise_cons hfs he]
        · have := h k'
          simpa [find_cons, hk'] using this
      rw [htail]

/-- A key has a value if it is the key of an entry. -/
theorem find_isSome_iff {k : String} {es : List (String × α)} :
    (find k es).isSome ↔ k ∈ es.map Prod.fst := by
  induction es with
  | nil => simp
  | cons e es ih =>
    obtain ⟨k₂, v₂⟩ := e
    simp only [find_cons, List.map_cons, List.mem_cons]
    split
    · next h => simp [h]
    · next h => rw [ih]; simp [Ne.symm h]

/-- What is found is an entry. -/
theorem mem_of_find {k : String} {v : α} {es : List (String × α)}
    (h : find k es = some v) : (k, v) ∈ es := by
  induction es with
  | nil => simp at h
  | cons e es ih =>
    obtain ⟨k₂, v₂⟩ := e
    rw [find_cons] at h
    split at h
    · next hk => subst hk; simp_all
    · exact List.mem_cons_of_mem _ (ih h)

/-- In sorted entries every entry is found. -/
theorem find_of_mem {k : String} {v : α} {es : List (String × α)} (hs : Sorted es)
    (h : (k, v) ∈ es) : find k es = some v := by
  induction es with
  | nil => simp at h
  | cons e es ih =>
    obtain ⟨k₂, v₂⟩ := e
    rw [find_cons]
    rcases List.mem_cons.1 h with h | h
    · cases h; simp
    · have hlt : k₂ < k := List.rel_of_pairwise_cons hs h
      have hne : k₂ ≠ k := fun he => String.lt_irrefl _ (he ▸ hlt)
      simp only [hne, if_false]
      exact ih (List.Pairwise.of_cons hs) h

/-- Putting entry after entry keeps them sorted. -/
theorem sorted_foldl_put (es acc : List (String × α)) (h : Sorted acc) :
    Sorted (es.foldl (fun acc e => put e.1 e.2 acc) acc) := by
  induction es generalizing acc with
  | nil => exact h
  | cons e es ih => exact ih _ (sorted_put _ _ h)

/-- Sorted entries are sorted. -/
theorem sorted_sort (es : List (String × α)) : Sorted (sort es) :=
  sorted_foldl_put es [] List.Pairwise.nil

/-- Behind smaller keys an entry is put at the end. -/
theorem put_of_lt {k : String} {v : α} : ∀ {es : List (String × α)}, (∀ e ∈ es, e.1 < k) →
    put k v es = es ++ [(k, v)]
  | [], _ => rfl
  | (k', v') :: es, h => by
    have hlt : k' < k := h (k', v') List.mem_cons_self
    have hne : k ≠ k' := fun heq => String.lt_irrefl _ (heq ▸ hlt)
    have hnot : ¬ k < k' := fun hgt => String.lt_irrefl _ (String.lt_trans hlt hgt)
    rw [put, if_neg hnot, if_neg hne, put_of_lt fun e he => h e (List.mem_cons_of_mem _ he)]
    rfl

/-- Sorting leaves sorted entries as they are. -/
theorem sort_of_sorted {es : List (String × α)} (h : Sorted es) : sort es = es := by
  have hfold : ∀ (es acc : List (String × α)), Sorted (acc ++ es) →
      es.foldl (fun acc e => put e.1 e.2 acc) acc = acc ++ es := by
    intro es
    induction es with
    | nil => simp
    | cons e es ih =>
      intro acc hsorted
      have hbefore : ∀ e' ∈ acc, e'.1 < e.1 := fun e' he' =>
        (List.pairwise_append.1 hsorted).2.2 e' he' e List.mem_cons_self
      rw [List.foldl_cons, put_of_lt hbefore, ih _ (by simpa using hsorted)]
      simp
  exact hfold es [] h

/-- Sorting brings in no entries. -/
theorem mem_of_mem_sort {e : String × α} {es : List (String × α)} (h : e ∈ sort es) : e ∈ es := by
  have hfold : ∀ (es acc : List (String × α)),
      e ∈ es.foldl (fun acc e => put e.1 e.2 acc) acc → e ∈ es ∨ e ∈ acc := by
    intro es
    induction es with
    | nil => exact fun acc h => .inr h
    | cons e' es ih =>
      intro acc h
      rcases ih _ h with h | h
      · exact .inl (List.mem_cons_of_mem _ h)
      · rcases mem_put h with h | h
        · exact .inl (h ▸ List.mem_cons_self)
        · exact .inr h
  rcases hfold es [] h with h | h
  · exact h
  · exact absurd h List.not_mem_nil

/-- Putting many entries gives values to their keys. -/
theorem find_isSome_foldl_put (k : String) (es : List (String × α)) :
    ∀ acc : List (String × α), (find k (es.foldl (fun acc e => put e.1 e.2 acc) acc)).isSome
      ↔ k ∈ es.map Prod.fst ∨ (find k acc).isSome := by
  induction es with
  | nil => simp
  | cons e es ih =>
    intro acc
    rw [List.foldl_cons, ih, find_put]
    by_cases h : e.1 = k
    · simp [h]
    · simp [h, Ne.symm h]

end Entries

/-! ## §2. The table type. -/

/-- Entries by name, in strictly increasing order of the names. -/
structure Table (α : Type) where
  /-- The entries, smallest name first. -/
  entries : List (String × α)
  /-- The names strictly increase. -/
  sorted : Entries.Sorted entries
  deriving DecidableEq

/-- A set of names: a table that stores nothing under them. -/
abbrev NameSet := Table Unit

namespace Table

variable {α β : Type}

/-- The table without entries. -/
def empty : Table α := ⟨[], List.Pairwise.nil⟩

instance : EmptyCollection (Table α) := ⟨empty⟩
instance : Inhabited (Table α) := ⟨empty⟩

instance [BEq α] : BEq (Table α) := ⟨fun s t => s.entries == t.entries⟩
instance [Repr α] : Repr (Table α) := ⟨fun t n => reprPrec t.entries n⟩

/-- The value stored under `k`. -/
def get? (t : Table α) (k : String) : Option α := Entries.find k t.entries

/-- Whether something is stored under `k`. -/
def contains (t : Table α) (k : String) : Bool := (t.get? k).isSome

/-- Store `v` under `k`, in place of what was there. -/
def insert (t : Table α) (k : String) (v : α) : Table α :=
  ⟨Entries.put k v t.entries, Entries.sorted_put k v t.sorted⟩

/-- Forget what is stored under `k`. -/
def erase (t : Table α) (k : String) : Table α :=
  ⟨t.entries.filter fun e => e.1 != k, t.sorted.filter _⟩

/-- Store a value under `k`, or nothing. -/
def set (t : Table α) (k : String) : Option α → Table α
  | some v => t.insert k v
  | none => t.erase k

/-- Keep the entries that pass `p`. -/
def filter (p : String → α → Bool) (t : Table α) : Table α :=
  ⟨t.entries.filter fun e => p e.1 e.2, t.sorted.filter _⟩

/-- Change every value, keeping the names. -/
def map (f : α → β) (t : Table α) : Table β :=
  ⟨t.entries.map fun e => (e.1, f e.2), by
    have h := t.sorted
    simp only [Entries.Sorted, List.pairwise_map] at h ⊢
    exact h⟩

/-- The names, in order. -/
def keys (t : Table α) : List String := t.entries.map Prod.fst

/-- The values, in the order of their names. -/
def values (t : Table α) : List α := t.entries.map Prod.snd

/-- How many entries there are. -/
def size (t : Table α) : Nat := t.entries.length

/-- Whether there is no entry. -/
def isEmpty (t : Table α) : Bool := t.entries.isEmpty

/-- The table of the given entries; of two with one name the later wins. -/
def ofList (es : List (String × α)) : Table α := ⟨Entries.sort es, Entries.sorted_sort es⟩

/-- The set of the given names. -/
def ofNames (ks : List String) : NameSet := ofList (ks.map fun k => (k, ()))

/-- Both tables in one; where both have an entry, `f` joins the two. -/
def mergeWith (f : α → α → α) (s t : Table α) : Table α :=
  t.entries.foldl (fun acc e =>
    acc.insert e.1 (match acc.get? e.1 with
      | none => e.2
      | some v => f v e.2)) s

/-! ## §3. What each operation does to `get?`. -/

@[simp] theorem get?_empty (k : String) : (∅ : Table α).get? k = none := rfl

/-- Inserting a value changes that key only. -/
theorem get?_insert (t : Table α) (k k' : String) (v : α) :
    (t.insert k v).get? k' = if k = k' then some v else t.get? k' :=
  Entries.find_put k k' v t.entries

@[simp] theorem get?_insert_self (t : Table α) (k : String) (v : α) :
    (t.insert k v).get? k = some v := by simp [get?_insert]

theorem get?_insert_ne (t : Table α) {k k' : String} (h : k ≠ k') (v : α) :
    (t.insert k v).get? k' = t.get? k' := by simp [get?_insert, h]

/-- Erasing a key changes that key only. -/
theorem get?_erase (t : Table α) (k k' : String) :
    (t.erase k).get? k' = if k = k' then none else t.get? k' := by
  obtain ⟨es, hs⟩ := t
  simp only [erase, get?]
  clear hs
  induction es with
  | nil => simp
  | cons e es ih =>
    obtain ⟨k₂, v₂⟩ := e
    by_cases h : k₂ = k
    · subst h
      simp only [List.filter_cons, bne_self_eq_false, Bool.false_eq_true, if_false, ih,
        Entries.find_cons]
      split <;> rfl
    · simp only [List.filter_cons, bne_iff_ne, ne_eq, h, not_false_iff, if_true,
        Entries.find_cons, ih]
      split
      · next h₂ => subst h₂; simp [Ne.symm h]
      · rfl

/-- Setting a key, to a value or to none, changes that key only. -/
theorem get?_set (t : Table α) (k k' : String) (o : Option α) :
    (t.set k o).get? k' = if k = k' then o else t.get? k' := by
  cases o with
  | none => simp only [set, get?_erase]
  | some v => simp only [set, get?_insert]

/-- A filter keeps the values that pass it. -/
theorem get?_filter (p : String → α → Bool) (t : Table α) (k : String) :
    (t.filter p).get? k = (t.get? k).filter (p k) := by
  obtain ⟨es, hs⟩ := t
  simp only [filter, get?]
  induction es with
  | nil => rfl
  | cons e es ih =>
    obtain ⟨k₂, v₂⟩ := e
    have ih := ih (List.Pairwise.of_cons hs)
    by_cases hk : k₂ = k
    · subst hk
      have hnone : Entries.find k₂ (es.filter fun e => p e.1 e.2) = none :=
        Entries.find_eq_none_of_lt fun e he =>
          List.rel_of_pairwise_cons hs (List.mem_filter.1 he).1
      by_cases hp : p k₂ v₂ = true
      · simp [Entries.find_cons, hp, Option.filter]
      · simp [Entries.find_cons, hp, Option.filter, hnone]
    · by_cases hp : p k₂ v₂ = true
      · simp [Entries.find_cons, hp, hk, ih]
      · simp [Entries.find_cons, hp, hk, ih]

/-- A map changes all values alike. -/
theorem get?_map (f : α → β) (t : Table α) (k : String) :
    (t.map f).get? k = (t.get? k).map f := by
  obtain ⟨es, hs⟩ := t
  simp only [map, get?]
  clear hs
  induction es with
  | nil => rfl
  | cons e es ih =>
    obtain ⟨k₂, v₂⟩ := e
    simp only [List.map_cons, Entries.find_cons, ih]
    split <;> rfl

/-- **Tables are equal when their look-ups are.** -/
theorem ext_get? {s t : Table α} (h : ∀ k, s.get? k = t.get? k) : s = t := by
  obtain ⟨es, hes⟩ := s
  obtain ⟨fs, hfs⟩ := t
  have : es = fs := Entries.eq_of_find_eq hes hfs h
  subst this
  rfl

/-- Inserting what is there changes nothing. -/
theorem insert_eq_self {t : Table α} {k : String} {v : α} (h : t.get? k = some v) :
    t.insert k v = t := by
  refine ext_get? fun k' => ?_
  rw [get?_insert]
  split
  · next heq => exact heq ▸ h.symm
  · rfl

/-- A table contains its keys. -/
theorem contains_iff_mem_keys {t : Table α} {k : String} : t.contains k ↔ k ∈ t.keys :=
  Entries.find_isSome_iff

/-- The value of a key is that of its entry. -/
theorem get?_eq_some_iff_mem {t : Table α} {k : String} {v : α} :
    t.get? k = some v ↔ (k, v) ∈ t.entries :=
  ⟨Entries.mem_of_find, Entries.find_of_mem t.sorted⟩

/-- The values are those of the keys. -/
theorem mem_values {t : Table α} {v : α} : v ∈ t.values ↔ ∃ k, t.get? k = some v := by
  constructor
  · intro h
    obtain ⟨⟨k, v⟩, hmem, rfl⟩ := List.mem_map.1 h
    exact ⟨k, get?_eq_some_iff_mem.2 hmem⟩
  · rintro ⟨k, h⟩
    exact List.mem_map.2 ⟨(k, v), get?_eq_some_iff_mem.1 h, rfl⟩

/-- A table is the table of its entries. -/
theorem ofList_entries (t : Table α) : ofList t.entries = t := by
  have hsort : Entries.sort t.entries = t.entries := Entries.sort_of_sorted t.sorted
  simp [ofList, hsort]

/-- Keys stand in increasing order. -/
theorem pairwise_keys (t : Table α) : t.keys.Pairwise (· < ·) :=
  List.pairwise_map.2 t.sorted

/-- No key stands twice. -/
theorem nodup_keys (t : Table α) : t.keys.Nodup := by
  refine t.pairwise_keys.imp ?_
  intro a b hlt heq
  subst heq
  exact String.lt_irrefl a hlt

/-- A table of names contains the names. -/
theorem contains_ofNames {ks : List String} {k : String} :
    (ofNames ks).contains k ↔ k ∈ ks := by
  have h := Entries.find_isSome_foldl_put k (ks.map fun k => (k, ())) []
  simpa [contains, get?, ofNames, ofList, Entries.sort] using h

/-- The keys of a table of names are the names. -/
theorem mem_keys_ofNames {ks : List String} {k : String} : k ∈ (ofNames ks).keys ↔ k ∈ ks :=
  contains_iff_mem_keys.symm.trans contains_ofNames

end Table

end LazyFields
