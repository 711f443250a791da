/-
  LazyFields.Proofs.Session.Identity
  ────────────────────────────────
  **ONE INSTANCE FOR EACH KIND AND ID.**

  In every run, calls that construct an instance of one kind with one id give
  the same instance, and this is the one that is found under the kind and id
  and that the list of the kind has once (`one_instance`).  It does not matter
  under which of its names the kind is known, which characters the id has, and
  whether logic makes the calls while others are under way.

  The table of published instances is keyed by addresses that are glued
  together, so the names of kinds have to be free of the separator; ids need
  not be.  Since all addresses of a kind begin with the same text, their order
  is the order of the ids.

  A call that finds its instance adds one that is discarded at once.  Unless
  its hooks do more than that, it changes nothing else and runs no callback.
-/
import LazyFields.Proofs.Catalog.Bound
import LazyFields.Proofs.Session.History
import LazyFields.Proofs.Session.Quiet
import Mathlib.Data.String.Basic

namespace LazyFields

/-! ## §1. The order of addresses. -/

/-- Behind a common beginning, texts are ordered as what follows. -/
theorem append_lt_append_iff (p : List Char) {a b : List Char} : p ++ a < p ++ b ↔ a < b := by
  induction p with
  | nil => rfl
  | cons x p ih =>
    rw [List.cons_append, List.cons_append, List.cons_lt_cons_iff, ih]
    simp

/-- Addresses of one kind are ordered as the ids are. -/
theorem instanceAddress_lt_iff {kind id id' : String} :
    instanceAddress kind id < instanceAddress kind id' ↔ id < id' := by
  simp only [instanceAddress, String.lt_iff_toList_lt, String.toList_append]
  exact append_lt_append_iff _

namespace Session

open LazyFields.Action

variable {c : Catalog} {s t u s₁ s₂ t₁ t₂ : Session} {k : Kind} {id name : String} {n : Nat}
  {r r₁ r₂ : Ref}

/-! ## §2. Finding and listing. -/

/-- None of the kinds has the separator in its name. -/
def Separable (c : Catalog) : Prop := ∀ k, c.Has k → '\x00' ∉ k.name.toList

/-- The kind and id are answered with the instance. -/
def Finds (s : Session) (name id : String) (r : Ref) : Prop :=
  ∀ fuel, s.run (fuel + 1) (.find name id) = some (.ok r, s)

/-- The kind is answered with the list of all instances that are found, each of
them once, by id. -/
structure Lists (s : Session) (name : String) (k : Kind) (refs : List Ref) : Prop where
  run : ∀ fuel, s.run (fuel + 1) (.list name) = some (.ok refs, s)
  sorted : (refs.map Ref.id).Pairwise (· < ·)
  mem_iff : ∀ r, r ∈ refs ↔ r.kind = k.name ∧ s.Finds name r.id r

/-- What is published is a kept instance of a kind of the catalog, under its
address. -/
theorem instance_of_published (hs : s.outline.Keyed) {address : String}
    (hn : s.published.get? address = some n) :
    ∃ i, s.instance? n = some i ∧ i.discarded = false ∧ s.catalog.Has i.kind
      ∧ instanceAddress i.kind.name i.id = address := by
  obtain ⟨m, hm, hkept, hkind, haddress⟩ := hs hn
  obtain ⟨i, hi, rfl⟩ := instance_of_member? (s := s) hm
  exact ⟨i, hi, hkept, hkind, haddress⟩

/-- The reference to an instance bears its kind and id. -/
theorem ref_of_instance {i : Instance} (hi : s.instance? n = some i) :
    s.ref n = ⟨n, i.kind.name, i.id⟩ := by
  rw [ref, hi]

/-- What is published under a kind and id is of the kind, and has the id. -/
theorem ref_of_published (hs : s.outline.Keyed) (hnames : Separable s.catalog)
    (hk : s.catalog.Has k) (hn : s.published.get? (instanceAddress k.name id) = some n) :
    s.ref n = ⟨n, k.name, id⟩ := by
  obtain ⟨i, hi, -, hkind, haddress⟩ := instance_of_published hs hn
  obtain ⟨hname, hid⟩ := instanceAddress_inj (hnames _ hkind) (hnames _ hk) haddress
  rw [ref_of_instance hi, hname, hid]

/-- What is published at the address of a name and an id is found. -/
theorem find_of_published (hget : s.catalog.get name = .ok k)
    (hn : s.published.get? (instanceAddress k.name id) = some n) : s.find name id = .ok n := by
  simp only [find, hget, hn, Bind.bind, Except.bind]

/-- What is found is published at the address of the name and the id. -/
theorem published_of_find (hget : s.catalog.get name = .ok k) (hfind : s.find name id = .ok n) :
    s.published.get? (instanceAddress k.name id) = some n := by
  simp only [find, hget, Bind.bind, Except.bind] at hfind
  split at hfind
  · next m hm =>
    cases hfind
    exact hm
  · simp at hfind

/-- A reference to what is published is found by its own id. -/
theorem finds_of_published (hs : s.outline.Keyed) (hnames : Separable s.catalog)
    (hget : s.catalog.get name = .ok k) (hkind : r.kind = k.name)
    (hn : s.published.get? (instanceAddress k.name r.id) = some r.number) :
    s.Finds name r.id r := by
  intro fuel
  have href : s.ref r.number = r := by
    rw [ref_of_published hs hnames (Catalog.has_of_get hget) hn, ← hkind]
  show (lookup name r.id).runOn s = _
  simp only [lookup, runOn_bind, runOn_get, runOn_ofResult, find_of_published hget hn,
    runOn_pure, href]

/-- What is found by a name and an id is published there. -/
theorem published_of_finds (hget : s.catalog.get name = .ok k) (h : s.Finds name id r) :
    s.published.get? (instanceAddress k.name id) = some r.number := by
  have hrun : (lookup name id).runOn s = some (.ok r, s) := h 0
  simp only [lookup, runOn_bind, runOn_get, runOn_ofResult] at hrun
  cases hfind : s.find name id with
  | error e => simp [hfind] at hrun
  | ok n =>
    simp only [hfind, runOn_pure, Option.some.injEq, Prod.mk.injEq, Except.ok.injEq, and_true]
      at hrun
    have hnumber : n = r.number := by
      rw [← hrun, ref]
      split <;> rfl
    exact hnumber ▸ published_of_find hget hfind

/-- The instance of an entry of the table of published instances, if it is of
the kind. -/
def entryRef (s : Session) (kind : String) (e : String × Nat) : Option Ref :=
  (s.instance? e.2).bind fun i => if i.kind.name = kind then some ⟨e.2, i.kind.name, i.id⟩ else none

/-- An entry is listed under its kind's own name. -/
theorem entryRef_eq_some {kind : String} {e : String × Nat} :
    s.entryRef kind e = some r ↔ ∃ i, s.instance? e.2 = some i ∧ i.kind.name = kind
      ∧ r = ⟨e.2, i.kind.name, i.id⟩ := by
  unfold entryRef
  constructor
  · intro h
    obtain ⟨i, hi, hr⟩ := Option.bind_eq_some_iff.1 h
    split at hr
    · next hkind =>
      cases hr
      exact ⟨i, hi, hkind, rfl⟩
    · simp at hr
  · rintro ⟨i, hi, hkind, rfl⟩
    simp [hi, hkind]

/-- The list of a kind goes through the table of published instances. -/
theorem runOn_listKind (hget : s.catalog.get name = .ok k) :
    (listKind name).runOn s
      = some (.ok (s.published.entries.filterMap (s.entryRef k.name)), s) := by
  have hlist : s.list name = .ok ((s.publishedInstances.filter fun e =>
      e.2.kind.name = k.name).map Prod.fst) := by
    simp only [list, hget, Bind.bind, Except.bind]
  simp only [listKind, runOn_bind, runOn_get, runOn_ofResult, hlist, runOn_pure,
    publishedInstances, Table.values, List.filterMap_map, List.filter_filterMap, List.map_filterMap]
  congr 4
  funext e
  simp only [entryRef, Function.comp_apply]
  cases hi : s.instance? e.2 with
  | none => rfl
  | some i =>
    have href := ref_of_instance hi
    by_cases hkind : i.kind.name = k.name
    · simp [hkind, href]
    · simp [hkind]

/-- **Every kind has a list of its instances.** -/
theorem exists_lists (hs : s.outline.Keyed) (hnames : Separable s.catalog)
    (hget : s.catalog.get name = .ok k) : ∃ refs, s.Lists name k refs := by
  have hk := Catalog.has_of_get hget
  -- an entry with an instance of the kind stands under the address of its id
  have hentry : ∀ {e r}, e ∈ s.published.entries → s.entryRef k.name e = some r →
      r.number = e.2 ∧ r.kind = k.name ∧ e.1 = instanceAddress k.name r.id := by
    rintro ⟨address, n⟩ r he hr
    obtain ⟨i, hi, hkind, rfl⟩ := entryRef_eq_some.1 hr
    obtain ⟨j, hj, -, -, haddress⟩ :=
      instance_of_published hs (Table.get?_eq_some_iff_mem.2 he)
    rw [hi] at hj
    cases hj
    exact ⟨rfl, hkind, hkind ▸ haddress.symm⟩
  refine ⟨s.published.entries.filterMap (s.entryRef k.name), fun _ => runOn_listKind hget, ?_, ?_⟩
  · rw [List.pairwise_map, List.pairwise_filterMap]
    refine s.published.sorted.imp_of_mem ?_
    intro e e' he he' hlt r hr r' hr'
    obtain ⟨-, -, haddress⟩ := hentry he hr
    obtain ⟨-, -, haddress'⟩ := hentry he' hr'
    rw [haddress, haddress'] at hlt
    exact instanceAddress_lt_iff.1 hlt
  · intro r
    rw [List.mem_filterMap]
    constructor
    · rintro ⟨e, he, hr⟩
      obtain ⟨hnumber, hkind, haddress⟩ := hentry he hr
      have hpublished : s.published.get? (instanceAddress k.name r.id) = some r.number := by
        rw [hnumber, ← haddress]
        exact Table.get?_eq_some_iff_mem.2 he
      exact ⟨hkind, finds_of_published hs hnames hget hkind hpublished⟩
    · rintro ⟨hkind, hfinds⟩
      have hn := published_of_finds hget hfinds
      obtain ⟨i, hi, -, hhas, haddress⟩ := instance_of_published hs hn
      obtain ⟨hname, hid⟩ := instanceAddress_inj (hnames _ hhas) (hnames _ hk) haddress
      refine ⟨(_, r.number), Table.get?_eq_some_iff_mem.1 hn, entryRef_eq_some.2 ⟨i, hi, hname, ?_⟩⟩
      rw [hname, hid, ← hkind]

/-! ## §3. Calls that construct. -/

/-- A call that constructs an instance of the kind, and gives it the id, on the
session `s`; its answer is `r`, and it leaves `t`. -/
structure Construction (s t : Session) (k : Kind) (id : String) (r : Ref) where
  fuel : Nat
  /-- The name under which the kind is known. -/
  name : String
  args : Args
  /-- The arguments after the logic before construction. -/
  proceeded : Args
  prepared : Session
  /-- The forced id, and the other arguments. -/
  forced : Option String
  given : Args
  cache : Cache
  /-- The session once the id is known. -/
  named : Session
  get : s.catalog.get name = .ok k
  run : s.run (fuel + 1) (.create name args) = some (.ok r, t)
  prepares : (prepare (perform fuel) k args).runOn s = some (.ok (.proceed proceeded), prepared)
  takesId : k.takeId proceeded = .ok (forced, given)
  fills : k.cacheOf prepared.config.engine prepared.now given = .ok cache
  identifies : (chooseId (perform fuel) k prepared.instances.length forced).runOn
    (prepared.allocated k cache) = some (.ok id, named)

/-- **A call that succeeds constructs an instance,** unless the logic before
construction gives another one. -/
theorem construction_of_run {fuel : Nat} {args : Args}
    (h : s.run (fuel + 1) (.create name args) = some (.ok r, t)) :
    ∃ k, s.catalog.get name = .ok k ∧
      ((prepare (perform fuel) k args).runOn s = some (.ok (.existing r), t)
        ∨ ∃ id, Nonempty (Construction s t k id r)) := by
  have hcreate : (create (perform fuel) name args).runOn s = some (.ok r, t) := h
  obtain ⟨_, _, hs, hcreate⟩ := oks_of_runOn_bind hcreate
  cases hs
  obtain ⟨k, _, hget, hcreate⟩ := oks_of_runOn_bind hcreate
  rw [runOn_ofResult, Option.some.injEq, Prod.mk.injEq] at hget
  obtain ⟨hget, rfl⟩ := hget
  refine ⟨k, hget, ?_⟩
  obtain ⟨prepared, s', hprepare, hrest⟩ := oks_of_runOn_bind hcreate
  cases prepared with
  | existing r' =>
    cases hrest
    exact .inl hprepare
  | proceed proceeded =>
    right
    have hconstruct : (construct (perform fuel) k proceeded).runOn s' = some (.ok r, t) := hrest
    obtain ⟨⟨forced, given⟩, _, htake, hrest⟩ := oks_of_runOn_bind hconstruct
    rw [runOn_ofResult, Option.some.injEq, Prod.mk.injEq] at htake
    obtain ⟨htake, rfl⟩ := htake
    obtain ⟨_, _, hs', hrest⟩ := oks_of_runOn_bind hrest
    cases hs'
    obtain ⟨cache, _, hcache, hrest⟩ := oks_of_runOn_bind hrest
    rw [runOn_ofResult, Option.some.injEq, Prod.mk.injEq] at hcache
    obtain ⟨hcache, rfl⟩ := hcache
    obtain ⟨n, _, hallocate, hrest⟩ := oks_of_runOn_bind hrest
    rw [runOn_allocate] at hallocate
    cases hallocate
    obtain ⟨chosen, named, hattempt, hrest⟩ := oks_of_runOn_bind hrest
    obtain ⟨_, hok, hchosen⟩ := runOn_of_attempt hattempt
    cases hok
    cases chosen with
    | error e =>
      -- a call whose id logic fails does not succeed
      obtain ⟨_, _, -, hthrow⟩ := oks_of_runOn_bind hrest
      simp at hthrow
    | ok id =>
      exact ⟨id, ⟨⟨fuel, name, args, proceeded, s', forced, given, cache, named, hget, h, hprepare,
        htake, hcache, hchosen⟩⟩⟩

/-- The new instance is published or discarded. -/
theorem runOn_publish_of_some {call : Performer} {other : Nat}
    (h : s.published.get? (instanceAddress k.name id) = some other) :
    (publish call k n id).runOn s
      = some (.ok ((s.modifyInstance n fun i => { i with id }).ref other),
          (s.modifyInstance n fun i => { i with id }).modifyInstance n
            fun i => { i with discarded := true }) := by
  have hnamed : (s.modifyInstance n fun i => { i with id }).published.get?
      (instanceAddress k.name id) = some other := h
  simp only [publish, discard, runOn_bind, runOn_modify, runOn_get, hnamed, runOn_pure]

/-- The first with an id is published under it, and its fields are woken. -/
theorem runOn_publish_of_none {call : Performer}
    (h : s.published.get? (instanceAddress k.name id) = none) :
    (publish call k n id).runOn s
      = (k.info.fields.keys.forM (wake call n) >>= fun _ => pure (Ref.mk n k.name id)).runOn
          { s.modifyInstance n (fun i => { i with id }) with
            published := s.published.insert (instanceAddress k.name id) n } := by
  have hnamed : (s.modifyInstance n fun i => { i with id }).published.get?
      (instanceAddress k.name id) = none := h
  simp only [publish, runOn_bind, runOn_modify, runOn_get, hnamed, runOn_set]
  rfl

/-- **What is published under the kind and id is the answer.** -/
theorem published_of_publish {o : Outline} {fuel : Nat} (hnames : Separable o.catalog)
    (hk : o.catalog.Has k) (hs : o.Hosts n ⟨k, "", false⟩ s.outline)
    (hrun : (publish (perform fuel) k n id).runOn s = some (.ok r, t)) :
    r = ⟨r.number, k.name, id⟩ ∧ t.published.get? (instanceAddress k.name id) = some r.number := by
  have hcatalog : s.catalog = o.catalog := hs.evolves.catalog
  obtain ⟨hhosts, -⟩ := hs.modify fun m => { m with id }
  rw [← outline_modifyInstance (f := fun i => { i with id }) (fun _ => rfl)] at hhosts
  cases hpublished : s.published.get? (instanceAddress k.name id) with
  | some other =>
    rw [runOn_publish_of_some hpublished] at hrun
    cases hrun
    have href := ref_of_published (s := s.modifyInstance n fun i => { i with id }) hhosts.keyed
      (hcatalog ▸ hnames) (hcatalog ▸ hk) hpublished
    rw [href]
    exact ⟨rfl, hpublished⟩
  | none =>
    rw [runOn_publish_of_none hpublished] at hrun
    obtain ⟨-, hprecedes⟩ := hhosts.publish rfl (hhosts.evolves.catalog ▸ hk) rfl hpublished
    obtain ⟨_, u, hwake, hpure⟩ := oks_of_runOn_bind hrun
    cases hpure
    have hwakes := (tracks_wakes (tracks_perform s s fuel) n k.info.fields.keys _
      hprecedes.keyed).1 _ _ hwake
    exact ⟨rfl, hwakes.1.published (Table.get?_insert_self _ _ _)⟩

/-- Nothing is published, watched or changed, though instances may have been
added that nobody finds. -/
structure Spares (s t : Session) : Prop where
  published : t.published = s.published
  watches : t.watches = s.watches
  instances : ∀ {n i}, s.instance? n = some i → t.instance? n = some i

/-- One change that spares what is there may follow another. -/
theorem Spares.trans (h : s.Spares t) (k : t.Spares u) : s.Spares u :=
  ⟨k.published.trans h.published, k.watches.trans h.watches, fun hi => k.instances (h.instances hi)⟩

/-- A change of an instance that was not there. -/
theorem Spares.modifyInstance (h : s.Spares t) (hn : s.instance? n = none)
    (f : Instance → Instance) : s.Spares (t.modifyInstance n f) := by
  refine ⟨h.published, h.watches, ?_⟩
  intro m i hi
  have hne : n ≠ m := by
    intro heq
    subst heq
    simp [hn] at hi
  rw [instance?_modifyInstance, h.instances hi, Option.map_some, if_neg hne]

namespace Construction

/-- The number of the new instance. -/
def number (call : Construction s t k id r) : Nat := call.prepared.instances.length

/-- **The hooks do not change the session:** what runs before construction and
what gives the id run no callback, and leave everything as it is but for the
new instance. -/
structure Harmless (call : Construction s t k id r) : Prop where
  prepares : (prepare (performQuietly call.fuel) k call.args).runOn s
    = some (.ok (.proceed call.proceeded), call.prepared)
  prepared : s.Spares call.prepared
  identifies : (chooseId (performQuietly call.fuel) k call.number call.forced).runOn
    (call.prepared.allocated k call.cache) = some (.ok id, call.named)
  named : call.prepared.Spares call.named

variable (call : Construction s t k id r)

include call

/-- The call ends by publishing the instance. -/
theorem publishes : (publish (perform call.fuel) k call.number id).runOn call.named
    = some (.ok r, t) := by
  have hcreate : (create (perform call.fuel) call.name call.args).runOn s = some (.ok r, t) :=
    call.run
  unfold create construct at hcreate
  unfold number
  simpa only [runOn_bind, runOn_get, runOn_ofResult, call.get, call.prepares, call.takesId,
    call.fills, runOn_allocate, runOn_attempt, call.identifies, Option.map_some] using hcreate

/-- Once its id is known the instance is still hidden. -/
theorem hosts (hs : s.outline.Keyed) :
    s.outline.Hosts call.number ⟨k, "", false⟩ call.named.outline := by
  obtain ⟨hprecedes, hevolves⟩ :=
    (tracks_prepare (tracks_perform s s call.fuel) k call.args s hs).1 _ _ call.prepares
  have hallocated := hosts_allocated hprecedes.keyed k call.cache
  obtain ⟨hprecedes', hevolves'⟩ := (tracks_chooseId (tracks_perform s s call.fuel) k
    call.number call.forced _ hallocated.keyed).1 _ _ call.identifies
  have hhosts := hallocated.evolve hprecedes'.keyed hevolves'
  exact { hhosts with
    evolves := hevolves.trans hhosts.evolves
    new := hevolves.length_le.trans hhosts.new }

/-- **After the call the instance is the one under its kind and id.** -/
theorem published (hs : s.outline.Keyed) (hnames : Separable s.catalog) :
    r = ⟨r.number, k.name, id⟩
      ∧ t.published.get? (instanceAddress k.name id) = some r.number :=
  published_of_publish (o := s.outline) hnames (Catalog.has_of_get call.get) (call.hosts hs)
    call.publishes

/-- While the hooks run no callback, what is left of the call is publishing. -/
theorem runOn_performQuietly_create
    (hprepares : (prepare (performQuietly call.fuel) k call.args).runOn s
      = some (.ok (.proceed call.proceeded), call.prepared))
    (hidentifies : (chooseId (performQuietly call.fuel) k call.number call.forced).runOn
      (call.prepared.allocated k call.cache) = some (.ok id, call.named)) :
    (performQuietly (call.fuel + 1) (.create call.name call.args)).runOn s
      = (publish (performQuietly call.fuel) k call.number id).runOn call.named := by
  have hcreate : (create (performQuietly call.fuel) call.name call.args).runOn s
      = (publish (performQuietly call.fuel) k call.number id).runOn call.named := by
    unfold number at hidentifies ⊢
    unfold create construct
    simp only [runOn_bind, runOn_get, runOn_ofResult, call.get, hprepares, call.takesId,
      call.fills, runOn_allocate, runOn_attempt, hidentifies, Option.map_some]
  rw [runOn_performQuietly]
  exact hcreate

/-- **A call that finds its instance changes nothing,** if its hooks do not. -/
theorem unchanged (h : call.Harmless)
    (hthere : s.published.get? (instanceAddress k.name id) = some n) :
    (performQuietly (call.fuel + 1) (.create call.name call.args)).runOn s = some (.ok r, t)
      ∧ s.Spares t := by
  have hnamed : call.named.published.get? (instanceAddress k.name id) = some n := by
    rw [h.named.published, h.prepared.published]
    exact hthere
  have hquiet := call.runOn_performQuietly_create h.prepares h.identifies
  rw [runOn_publish_of_some hnamed] at hquiet
  have hrun := call.run.symm.trans (run_of_performQuietly hquiet)
  obtain ⟨-, ht⟩ := Prod.mk.inj (Option.some.inj hrun)
  refine ⟨hquiet.trans ((run_of_performQuietly hquiet).symm.trans call.run), ?_⟩
  have hfree : call.prepared.instance? call.number = none := List.getElem?_eq_none (Nat.le_refl _)
  rw [ht]
  exact h.prepared.trans ((h.named.modifyInstance hfree _).modifyInstance hfree _)

end Construction

/-! ## §4. One instance. -/

/-- **One instance for each kind and id.**  Two calls of one run that construct
an instance of a kind with the same id, under whatever names of the kind, give
the same instance.  From then on this instance is found under the kind and id,
and every kind has a list of the instances that are found, each of them once
and by id.  A call whose instance can be found already gives it without running
a callback, and changes no watch and no instance that was there, if its hooks
change nothing. -/
theorem one_instance (hnames : Separable c) (hs₁ : Occurs c s₁) (hs₂ : Occurs c s₂)
    (first : Construction s₁ t₁ k id r₁) (second : Construction s₂ t₂ k id r₂)
    (hu₁ : Later c t₁ u) (hu₂ : Later c t₂ u) :
    r₁ = r₂ ∧ r₂.kind = k.name ∧ r₂.id = id
      ∧ (∀ name, c.get name = .ok k → u.Finds name id r₂)
      ∧ (∀ name k', c.get name = .ok k' → ∃ refs, u.Lists name k' refs)
      ∧ (Later c t₁ s₂ → s₂.Finds second.name id r₂)
      ∧ (s₂.Finds second.name id r₂ → second.Harmless →
          (performQuietly (second.fuel + 1) (.create second.name second.args)).runOn s₂
            = some (.ok r₂, t₂) ∧ s₂.Spares t₂) := by
  obtain ⟨hkeyed₁, hcatalog₁⟩ := hs₁.keyed
  obtain ⟨hkeyed₂, hcatalog₂⟩ := hs₂.keyed
  obtain ⟨htkeyed₁, hevolves₁⟩ := evolves_run hkeyed₁ first.run
  obtain ⟨htkeyed₂, hevolves₂⟩ := evolves_run hkeyed₂ second.run
  obtain ⟨hr₁, hpublished₁⟩ := first.published hkeyed₁ (hcatalog₁ ▸ hnames)
  obtain ⟨hr₂, hpublished₂⟩ := second.published hkeyed₂ (hcatalog₂ ▸ hnames)
  have hprecedes := hu₂.precedes htkeyed₂
  have hu : u.published.get? (instanceAddress k.name id) = some r₂.number :=
    hprecedes.published hpublished₂
  have hcatalog : u.catalog = c :=
    (Eq.trans hprecedes.catalog hevolves₂.catalog).trans hcatalog₂
  -- both calls end before `u`, where one instance stands under the address
  have hnumber : r₁.number = r₂.number := by
    have hu' : u.published.get? (instanceAddress k.name id) = some r₁.number :=
      (hu₁.precedes htkeyed₁).published hpublished₁
    exact Option.some.inj (hu'.symm.trans hu)
  have hsame : r₁ = r₂ := by
    rw [hr₁, hr₂, hnumber]
  have hkind : r₁.kind = k.name := by rw [hr₁]
  have hid : r₁.id = id := by rw [hr₁]
  subst hsame hid
  refine ⟨rfl, hkind, rfl, ?_, ?_, ?_, ?_⟩
  · intro name hget
    exact finds_of_published hprecedes.keyed (hcatalog ▸ hnames) (hcatalog ▸ hget) hkind hu
  · intro name k' hget
    exact exists_lists hprecedes.keyed (hcatalog ▸ hnames) (hcatalog ▸ hget)
  · intro hlater
    exact finds_of_published hkeyed₂ (hcatalog₂ ▸ hnames) second.get hkind
      ((hlater.precedes htkeyed₁).published hpublished₁)
  · intro hfinds hharmless
    exact second.unchanged hharmless (published_of_finds second.get hfinds)

/-! ## §5. An example. -/

open LazyFields.Sample (after)

/-- A field that holds a text. -/
def labelField (name : String) (isStatic : Bool) (refs : List String) : FieldSpec :=
  ⟨name, .string, isStatic, refs, "", "", false⟩

/-- A kind whose instances have the text `a` as their id. -/
def labelled : Kind where
  info := ⟨"r", "r", "", "", none, false, false, "",
    Table.ofList [("a", labelField "a" true [])], none⟩
  computes := ∅
  init := none
  idLogic := some fun self _ => .ask (.field self.number "a") fun answer =>
    .done (answer.map Value.text)

/-- The kind is also known by the name of a pack. -/
def labels : Catalog := ⟨Table.ofList [("r", labelled)], Table.ofNames ["p"]⟩

/-- No name in the catalog of labels has the separator in it. -/
theorem separable_labels : Separable labels := by
  rintro k ⟨key, hk⟩
  have hmem : (key, k) ∈ [("r", labelled)] := Table.get?_eq_some_iff_mem.1 hk
  obtain ⟨-, rfl⟩ := Prod.mk.inj (List.mem_singleton.1 hmem)
  decide

def unlabelled : Session := .new labels ⟨1, 1, false, fun _ => none⟩ 0

/-- An argument whose text has the separator in it. -/
def label : Args := Table.ofList [("a", .string "x\x00y")]

def labelledOnce : Session := after unlabelled (.create "r" label)

def labelledTwice : Session := after labelledOnce (.create "p.r" label)

def labelCache : Cache := (labelled.cacheOf (fun _ => none) 0 label).toOption.getD ∅

/-- The session once the id of a new instance is known. -/
def labelNamed (s : Session) : Session :=
  (((chooseId (perform 19) labelled s.instances.length none).runOn
    (s.allocated labelled labelCache)).map Prod.snd).getD s

def firstLabel : Construction unlabelled labelledOnce labelled "x\x00y" ⟨0, "r", "x\x00y"⟩ where
  fuel := 19
  name := "r"
  args := label
  proceeded := label
  prepared := unlabelled
  forced := none
  given := label
  cache := labelCache
  named := labelNamed unlabelled
  get := by rfl
  run := by rfl
  prepares := by rfl
  takesId := by rfl
  fills := by rfl
  identifies := by rfl

def secondLabel :
    Construction labelledOnce labelledTwice labelled "x\x00y" ⟨0, "r", "x\x00y"⟩ where
  fuel := 19
  name := "p.r"
  args := label
  proceeded := label
  prepared := labelledOnce
  forced := none
  given := label
  cache := labelCache
  named := labelNamed labelledOnce
  get := by rfl
  run := by rfl
  prepares := by rfl
  takesId := by rfl
  fills := by rfl
  identifies := by rfl

/-- Reading the static field that is the id changes nothing. -/
theorem harmless_secondLabel : secondLabel.Harmless where
  prepares := by rfl
  prepared := ⟨rfl, rfl, id⟩
  identifies := by rfl
  named := by
    refine ⟨rfl, rfl, ?_⟩
    intro n i hi
    have hinstances : (labelNamed labelledOnce).instances
        = labelledOnce.instances ++ [⟨labelled, "", labelCache, false⟩] := by rfl
    have hlt : n < labelledOnce.instances.length := (List.getElem?_eq_some_iff.1 hi).1
    show (labelNamed labelledOnce).instances[n]? = some i
    rw [hinstances, List.getElem?_append_left hlt]
    exact hi

theorem one_label : Separable labels ∧ Occurs labels unlabelled ∧ Occurs labels labelledOnce
    ∧ Later labels labelledOnce labelledTwice ∧ secondLabel.Harmless
    ∧ (∀ name, labels.get name = .ok labelled →
        labelledTwice.Finds name "x\x00y" ⟨0, "r", "x\x00y"⟩)
    ∧ (∃ refs, labelledTwice.Lists "p.r" labelled refs)
    ∧ (performQuietly 20 (.create "p.r" label)).runOn labelledOnce
        = some (.ok ⟨0, "r", "x\x00y"⟩, labelledTwice)
    ∧ labelledOnce.Spares labelledTwice := by
  have hstart : Occurs labels unlabelled := .new ⟨1, 1, false, fun _ => none⟩ 0
  have honce : Occurs labels labelledOnce := hstart.run firstLabel.run
  have hlater : Later labels labelledOnce labelledTwice := .single (.run secondLabel.run)
  obtain ⟨-, -, -, hfinds, hlists, hthere, hunchanged⟩ := one_instance separable_labels hstart honce
    firstLabel secondLabel hlater .refl
  obtain ⟨hquiet, hspares⟩ := hunchanged (hthere .refl) harmless_secondLabel
  exact ⟨separable_labels, hstart, honce, hlater, harmless_secondLabel, hfinds,
    hlists "p.r" labelled (by rfl), hquiet, hspares⟩

end Session

end LazyFields
