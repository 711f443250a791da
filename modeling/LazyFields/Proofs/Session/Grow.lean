/-
  LazyFields.Proofs.Session.Grow
  ────────────────────────────────
  **A NEW INSTANCE IN A VIEW.**

  `View.add` is a view with one more instance, whose arguments stand in its
  cache.  Whether it was published or discarded, a regular view stays regular
  (`Regular.add`), and what the older instances are and refer to stays the same
  (`grows_add`).
-/
import LazyFields.Proofs.Session.Register

namespace LazyFields

/-! ## §1. The arguments of an instance. -/

namespace Kind

variable {k : Kind} {engine : PatternEngine} {now : Int} {args : Args} {cache : Cache}

/-- The arguments fit the kind: each names a field, and no static field goes
without. -/
structure Accepts (k : Kind) (args : Args) : Prop where
  declared : ∀ {f v}, args.get? f = some v → ∃ spec, k.info.field? f = some spec
  given : ∀ {f spec}, k.info.field? f = some spec → spec.isStatic = true →
    ∃ v, args.get? f = some v

/-- Storing the arguments one by one leaves each in its slot, and the others as they
were; each is declared. -/
theorem foldlM_store (es : List (String × Value)) :
    ∀ {c out : Cache}, Entries.Sorted es →
      es.foldlM (fun (c : Cache) e => do
        k.checkArgument engine e.1 e.2
        .ok (c.store e.1 (Entry.ofValue e.2 now))) c = .ok out →
      (∀ f, out.slot? f = match Entries.find f es with
        | some v => some (.stored (Entry.ofValue v now))
        | none => c.slot? f)
      ∧ ∀ f v, (f, v) ∈ es → ∃ spec, k.info.field? f = some spec := by
  induction es with
  | nil =>
    intro c out _ h
    cases h
    exact ⟨fun _ => rfl, fun f v hmem => absurd hmem (by simp)⟩
  | cons e es ih =>
    intro c out hsorted h
    obtain ⟨f, v⟩ := e
    rw [List.foldlM_cons] at h
    cases hcheck : k.checkArgument engine f v with
    | error err => simp [hcheck, Bind.bind, Except.bind] at h
    | ok u =>
      simp only [hcheck, Bind.bind, Except.bind] at h
      obtain ⟨hslots, hdeclared⟩ := ih hsorted.of_cons h
      constructor
      · intro g
        rw [hslots g, Entries.find_cons]
        by_cases hfg : f = g
        · subst hfg
          -- the arguments are sorted, so none of the others has the name
          have hlt : ∀ e ∈ es, f < e.1 := fun e he => List.rel_of_pairwise_cons hsorted he
          simp [Entries.find_eq_none_of_lt hlt, Cache.slot?_store]
        · simp [hfg, Cache.slot?_store]
      · intro g w hmem
        rcases List.mem_cons.1 hmem with heq | hmem
        · cases heq
          unfold checkArgument at hcheck
          split at hcheck
          · simp at hcheck
          · next spec hspec => exact ⟨spec, hspec⟩
        · exact hdeclared g w hmem

/-- The arguments are stored one by one, and then no static field is missing. -/
theorem foldlM_of_cacheOf (h : k.cacheOf engine now args = .ok cache) :
    args.entries.foldlM (fun (c : Cache) e => do
        k.checkArgument engine e.1 e.2
        .ok (c.store e.1 (Entry.ofValue e.2 now))) ∅ = .ok cache
      ∧ k.missingField? cache = none := by
  unfold cacheOf at h
  cases hfold : args.entries.foldlM (fun (c : Cache) e => do
      k.checkArgument engine e.1 e.2
      .ok (c.store e.1 (Entry.ofValue e.2 now))) ∅ with
  | error e =>
    rw [hfold] at h
    simp [Bind.bind, Except.bind] at h
  | ok out =>
    rw [hfold] at h
    simp only [Bind.bind, Except.bind] at h
    split at h
    · simp at h
    · next hmissing =>
      cases h
      exact ⟨rfl, hmissing⟩

/-- **What the arguments leave in the cache.** -/
theorem cacheOf_sound (hnames : ∀ {f spec}, k.info.field? f = some spec → spec.name = f)
    (h : k.cacheOf engine now args = .ok cache) :
    k.Accepts args ∧ ∀ f, cache.slot? f
      = (args.get? f).map fun v => .stored (Entry.ofValue v now) := by
  obtain ⟨hfold, hmissing⟩ := foldlM_of_cacheOf h
  obtain ⟨hslots, hdeclared⟩ := foldlM_store args.entries args.sorted hfold
  have hslot : ∀ f, cache.slot? f
      = (args.get? f).map fun v => .stored (Entry.ofValue v now) := by
    intro f
    rw [hslots f, Cache.slot?_empty]
    show _ = (Entries.find f args.entries).map _
    cases Entries.find f args.entries <;> rfl
  refine ⟨⟨fun hv => hdeclared _ _ (Table.get?_eq_some_iff_mem.1 hv), ?_⟩, hslot⟩
  intro f spec hspec hstatic
  -- no static field is missing, so each has an entry
  have hnone := Option.map_eq_none_iff.1 hmissing
  have hmem : spec ∈ k.info.statics := by
    refine List.mem_filter.2 ⟨?_, hstatic⟩
    exact List.mem_map.2 ⟨(f, spec), Table.get?_eq_some_iff_mem.1 hspec, rfl⟩
  have hget := List.find?_eq_none.1 hnone spec hmem
  rw [hnames hspec, Cache.get?, hslot f] at hget
  cases hv : args.get? f with
  | none => simp [hv] at hget
  | some v => exact ⟨v, rfl⟩

end Kind

/-! ## §2. One more instance. -/

namespace View

variable {v : View} {m : Member} {args : Args} {now : Int} {published : Table Nat}

/-- The number of the next instance. -/
def next (v : View) : Nat := v.outline.members.length

/-- The view with one more instance. -/
def add (v : View) (m : Member) (args : Args) (now : Int) (published : Table Nat) : View where
  outline := { v.outline with members := v.outline.members ++ [m], published }
  slots x := if x.1 = v.next then (args.get? x.2).map fun w => .stored (Entry.ofValue w now)
    else v.slots x
  watches := v.watches

@[simp] theorem add_watches : (v.add m args now published).watches = v.watches := rfl

@[simp] theorem add_catalog : (v.add m args now published).outline.catalog = v.outline.catalog :=
  rfl

/-- The new instance takes the next number; the others keep theirs. -/
theorem add_member? (n : Nat) : (v.add m args now published).outline.member? n
    = if n = v.next then some m else v.outline.member? n := by
  simp only [add, Outline.member?, next, List.getElem?_append]
  by_cases hlt : n < v.outline.members.length
  · have hne : n ≠ v.outline.members.length := by omega
    simp [hlt, hne]
  · by_cases heq : n = v.outline.members.length
    · simp [heq]
    · have hrest : [m][n - v.outline.members.length]? = none :=
        List.getElem?_eq_none (by simp; omega)
      simp [hlt, heq, hrest]

/-- The instances there are have numbers below the next one. -/
theorem lt_next {n : Nat} {m' : Member} (h : v.outline.member? n = some m') : n < v.next :=
  (List.getElem?_eq_some_iff.1 h).1

/-- The old instances are as they were. -/
theorem add_member?_old {n : Nat} {m' : Member} (h : v.outline.member? n = some m') :
    (v.add m args now published).outline.member? n = some m' := by
  have := lt_next h
  rw [add_member?, if_neg (by omega)]
  exact h

/-- The entries of the old instances are as they were. -/
theorem add_slots_old {x : Node} {m' : Member} (h : v.outline.member? x.1 = some m') :
    (v.add m args now published).slots x = v.slots x := by
  have := lt_next h
  exact if_neg (by omega)

/-- The entries of the new instance are its arguments. -/
theorem add_slots_new (f : String) : (v.add m args now published).slots (v.next, f)
    = (args.get? f).map fun w => .stored (Entry.ofValue w now) :=
  if_pos rfl

/-- A slot is an old one, or it holds an argument of the new instance. -/
theorem slots_of_add {x : Node} {slot : Slot}
    (h : (v.add m args now published).slots x = some slot) :
    v.slots x = some slot
      ∨ x.1 = v.next ∧ ∃ w, args.get? x.2 = some w ∧ slot = .stored (Entry.ofValue w now) := by
  by_cases hnew : x.1 = v.next
  · have hslot : (v.add m args now published).slots x
        = (args.get? x.2).map fun w => .stored (Entry.ofValue w now) := if_pos hnew
    rw [hslot] at h
    obtain ⟨w, hw, rfl⟩ := Option.map_eq_some_iff.1 h
    exact .inr ⟨hnew, w, hw, rfl⟩
  · have hslot : (v.add m args now published).slots x = v.slots x := if_neg hnew
    exact .inl (hslot ▸ h)

/-- The published table after a new instance: it is listed, unless it is
discarded. -/
structure Lists (v : View) (m : Member) (published : Table Nat) : Prop where
  kind : v.outline.catalog.kinds.get? m.kind.name = some m.kind
  kept : m.discarded = false →
    v.outline.published.get? (instanceAddress m.kind.name m.id) = none
      ∧ published = v.outline.published.insert (instanceAddress m.kind.name m.id) v.next
  discarded : m.discarded = true → published = v.outline.published

/-- What is discarded is not listed. -/
theorem Lists.of_discarded (hk : v.outline.catalog.kinds.get? m.kind.name = some m.kind)
    (h : m.discarded = true) : v.Lists m v.outline.published :=
  ⟨hk, fun hkept => absurd (h.symm.trans hkept) (by decide), fun _ => rfl⟩

/-- What is published now was before, or is the new instance. -/
theorem Lists.get? (h : v.Lists m published) (address : String) (n : Nat) :
    published.get? address = some n ↔ v.outline.published.get? address = some n
      ∨ n = v.next ∧ m.discarded = false ∧ instanceAddress m.kind.name m.id = address := by
  cases hdiscarded : m.discarded with
  | true =>
    rw [h.discarded hdiscarded]
    simp
  | false =>
    obtain ⟨hfree, heq⟩ := h.kept hdiscarded
    rw [heq, Table.get?_insert]
    split
    · next haddress =>
      subst haddress
      simp [hfree, eq_comm]
    · next hne => simp [hne]

/-- The outline grows by a new instance. -/
theorem grows_add (h : v.Lists m published) :
    v.outline.Grows (v.add m args now published).outline where
  catalog := rfl
  member := add_member?_old
  published hn := (h.get? _ _).2 (.inl hn)

/-- A field that is there is an old one or one of the new instance. -/
theorem declares_add {x : Node} {m' : Member} {spec : FieldSpec}
    (h : (v.add m args now published).outline.Declares x m' spec) :
    v.outline.Declares x m' spec
      ∨ x.1 = v.next ∧ m' = m ∧ m.discarded = false ∧ m.kind.info.field? x.2 = some spec := by
  have hmember := h.member
  rw [add_member?] at hmember
  split at hmember
  · next hnew =>
    obtain rfl : m = m' := Option.some.inj hmember
    exact .inr ⟨hnew, rfl, h.kept, h.field⟩
  · exact .inl ⟨hmember, h.kept, h.field⟩

/-- A new instance keeps the outline sound. -/
theorem sound_add (h : v.outline.Sound) (hm : v.Lists m published) :
    (v.add m args now published).outline.Sound where
  lawful := h.lawful
  live := h.live
  kind := by
    intro n m' hm'
    rw [add_member?] at hm'
    split at hm'
    · obtain rfl : m = m' := Option.some.inj hm'
      exact hm.kind
    · exact h.kind hm'
  published := by
    intro address n
    show published.get? address = some n ↔ _
    rw [hm.get?, h.published]
    constructor
    · rintro (⟨m', hm', hkept, haddress⟩ | ⟨rfl, hkept, haddress⟩)
      · exact ⟨m', add_member?_old hm', hkept, haddress⟩
      · exact ⟨m, by rw [add_member?, if_pos rfl], hkept, haddress⟩
    · rintro ⟨m', hm', hkept, haddress⟩
      rw [add_member?] at hm'
      split at hm'
      · next hn =>
        obtain rfl : m = m' := Option.some.inj hm'
        exact .inr ⟨hn, hkept, haddress⟩
      · exact .inl ⟨m', hm', hkept, haddress⟩

/-- A new instance keeps the entries stocked with values. -/
theorem Stocked.add (h : v.Stocked) (hargs : m.kind.Accepts args) :
    (v.add m args now published).Stocked where
  entry hx := by
    rcases slots_of_add hx with hold | ⟨-, w, -, hw⟩
    · exact h.entry hold
    · obtain rfl := Slot.stored.inj hw
      exact ⟨.ok w, rfl, by simp⟩
  given {x m' spec} hx hstatic := by
    rcases declares_add hx with hold | ⟨hnew, rfl, -, hfield⟩
    · obtain ⟨w, hw⟩ := h.given hold hstatic
      exact ⟨w, hw.congr (add_slots_old hold.member)⟩
    · obtain ⟨w, hw⟩ := hargs.given hfield hstatic
      refine ⟨w, Entry.ofValue w now, ?_, rfl, by simp⟩
      have hslot : (v.add m' args now published).slots x
          = (args.get? x.2).map fun w => .stored (Entry.ofValue w now) := if_pos hnew
      rw [hslot, hw, Option.map_some]

/-- **A new instance keeps a view regular.** -/
theorem Regular.add (h : v.Regular) (hm : v.Lists m published) (hargs : m.kind.Accepts args) :
    (v.add m args now published).Regular where
  sound := sound_add h.sound hm
  alone := h.alone
  stocked := h.stocked.add hargs
  quiet x previous hx := by
    rcases slots_of_add hx with hold | ⟨-, w, -, hw⟩
    · exact h.quiet x previous hold
    · cases hw
  declared {x slot} hx := by
    rcases slots_of_add hx with hold | ⟨hnew, w, hw, -⟩
    · obtain ⟨m', spec, hm', hspec⟩ := h.declared hold
      exact ⟨m', spec, add_member?_old hm', hspec⟩
    · obtain ⟨spec, hspec⟩ := hargs.declared hw
      exact ⟨m, spec, by rw [add_member?, if_pos hnew], hspec⟩
  fits {address watcher f} hf := by
    have hfits := h.fits hf
    cases f with
    | report n field name =>
      obtain ⟨m', hm'⟩ := hfits
      exact ⟨m', add_member?_old hm'⟩
    | recompute n field =>
      obtain ⟨m', spec, reference, hx, hrest⟩ := hfits
      exact ⟨m', spec, reference, (grows_add hm).declares hx, hrest⟩

end View

end LazyFields
