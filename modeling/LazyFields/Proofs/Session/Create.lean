/-
  LazyFields.Proofs.Session.Create
  ────────────────────────────────
  **CREATING AN INSTANCE.**

  A creation leaves the session as it was, or adds an instance that is
  discarded, or publishes one and wakes those of its fields that somebody
  watches already.  So an invariant of a `Protocol` survives it as soon as it
  survives the new instance itself, with the fields to be woken pending
  (`create_ends`).

  The hooks of a kind are asked for little: what runs before construction asks
  the session nothing, and id logic reads static fields of its instance.
-/
import LazyFields.Proofs.Session.Grow

namespace LazyFields

/-! ## §1. Hooks. -/

/-- The program asks for nothing but the given fields of one instance. -/
inductive Program.Reads {α : Type} (n : Nat) (fields : String → Prop) : Program α → Prop
  | done (r : Except Error α) : Reads n fields (.done r)
  | ask {f : String} {next : Except Error Value → Program α} (hf : fields f)
      (h : ∀ r, Reads n fields (next r)) : Reads n fields (.ask (.field n f) next)

namespace Catalog

/-- What runs before construction asks nothing of the session. -/
def PreparesAlone (c : Catalog) : Prop :=
  ∀ ⦃kind k logic⦄, c.kinds.get? kind = some k → k.init = some logic →
    ∀ args number, (logic args number).IsPassive

/-- Id logic reads static fields of its instance and nothing else. -/
def IdentifiesByStatics (c : Catalog) : Prop :=
  ∀ ⦃kind k logic⦄, c.kinds.get? kind = some k → k.idLogic = some logic →
    ∀ self number, (logic self number).Reads self.number fun f =>
      ∃ spec, k.info.field? f = some spec ∧ spec.isStatic = true

end Catalog

namespace Session

open LazyFields.Action

variable {s : Session} {k : Kind} {args : Args}

/-- What the logic before construction makes of the arguments. -/
def prepared (s : Session) (k : Kind) (args : Args) : Except Error Prepared :=
  match k.init with
  | none => .ok (.proceed args)
  | some logic =>
      (logic args ((s.record (.initialized k.name args)).initCalls k.name)).result

/-- The arguments from which an instance would be constructed, without the one
that forces its id. -/
def constructorArgs (s : Session) (kind : String) (args : Args) : Args :=
  match s.catalog.get kind with
  | .error _ => ∅
  | .ok k =>
    match s.prepared k args with
    | .ok (.proceed args) => args.erase idArgument
    | _ => ∅

theorem prepare_ends (halone : s.catalog.PreparesAlone)
    (hk : s.catalog.kinds.get? k.name = some k) :
    Ends (fun call => prepare call k args) s fun a t =>
      a = s.prepared k args ∧ t.view = s.view := by
  unfold prepare prepared
  cases hinit : k.init with
  | none => exact .pure ⟨rfl, rfl⟩
  | some logic =>
    dsimp only
    refine .next (runOn_note _) (.next runOn_get ?_)
    obtain ⟨r, hr⟩ := halone hk hinit args ((s.record (.initialized k.name args)).initCalls k.name)
    simp only [hr, Program.run, Program.result]
    exact .of_runOn (fun _ => runOn_ofResult r _) ⟨rfl, rfl⟩

/-- Reading static fields changes nothing. -/
theorem reads_ends {α : Type} {n : Nat} {fields : String → Prop} {p : Program α}
    (h : p.Reads n fields)
    (hread : ∀ f, fields f → ∃ m spec r, s.view.outline.Declares (n, f) m spec
      ∧ s.view.result? (n, f) = some r) :
    Ends (fun call => p.run call) s fun _ t => t = s := by
  induction h with
  | done r => exact .of_runOn (fun _ => runOn_ofResult r s) rfl
  | @ask f next hf _ ih =>
    obtain ⟨m, spec, r, hx, hr⟩ := hread f hf
    unfold Program.run
    refine .attempt_bind (field_ends hx.member hx.field hr) ?_
    rintro a t ⟨-, rfl⟩
    exact ih a

/-! ## §2. Small steps. -/

/-- The view after a change of an instance that keeps its cache. -/
theorem view_modifyInstance {f : Instance → Instance} {g : Member → Member}
    (hmember : ∀ i, (f i).member = g i.member) (hcache : ∀ i, (f i).cache = i.cache) (n : Nat) :
    (s.modifyInstance n f).view = { s.view with
      outline := { s.view.outline with members := s.view.outline.members.modify n g } } := by
  have hslots : (s.modifyInstance n f).slot? = s.slot? := by
    funext x
    simp only [slot?, instance?, modifyInstance, List.getElem?_modify]
    by_cases hx : n = x.1
    · subst hx
      cases s.instances[x.1]? <;> simp [hcache]
    · cases s.instances[x.1]? <;> simp [hx]
  unfold view
  rw [hslots, outline_modifyInstance hmember]
  rfl

/-- A new instance that is not published yet. -/
theorem view_allocate {cache : Cache} {now : Int}
    (hslots : ∀ f, cache.slot? f = (args.get? f).map fun v => .stored (Entry.ofValue v now)) :
    ({ s with instances := s.instances ++ [Instance.mk k "" cache false] } : Session).view
      = s.view.add ⟨k, "", false⟩ args now s.published := by
  unfold view View.add
  congr 1
  · simp [outline, Instance.member]
  · funext x
    have hnext : View.next ⟨s.outline, s.slot?, s.watches⟩ = s.instances.length := by
      simp [View.next, outline]
    simp only [slot?, instance?, hnext, List.getElem?_append]
    by_cases hlt : x.1 < s.instances.length
    · have hne : x.1 ≠ s.instances.length := by omega
      simp [hlt, hne]
    · by_cases heq : x.1 = s.instances.length
      · simp [heq, hslots]
      · have hrest : [Instance.mk k "" cache false][x.1 - s.instances.length]? = none :=
          List.getElem?_eq_none (by simp; omega)
        simp [hlt, heq, hrest]

/-- A change of the new instance. -/
theorem add_modify (v : View) (m : Member) (args : Args) (now : Int) (published : Table Nat)
    (g : Member → Member) :
    { v.add m args now published with
      outline := { (v.add m args now published).outline with
        members := (v.add m args now published).outline.members.modify v.next g } }
      = v.add (g m) args now published := by
  have hmodify : ∀ members : List Member,
      (members ++ [m]).modify members.length g = members ++ [g m] := by
    intro members
    induction members with
    | nil => rfl
    | cons m' members ih =>
      rw [List.cons_append, List.length_cons, List.modify_succ_cons, ih, List.cons_append]
  simp only [View.add, View.next, hmodify]

section New

variable {t : Session} {m : Member} {id : String} {now : Int} {published : Table Nat}

/-- The new instance gets its id. -/
theorem view_named (ht : t.view = s.view.add ⟨k, "", false⟩ args now s.published)
    (id : String) :
    (t.modifyInstance s.view.next fun i => { i with id }).view
      = s.view.add ⟨k, id, false⟩ args now s.published := by
  rw [view_modifyInstance (f := fun i => { i with id }) (g := fun m => { m with id })
    (fun _ => rfl) (fun _ => rfl), ht, add_modify]

/-- The new instance is discarded. -/
theorem view_discard (ht : t.view = s.view.add ⟨k, id, false⟩ args now s.published) :
    (t.modifyInstance s.view.next fun i => { i with discarded := true }).view
      = s.view.add ⟨k, id, true⟩ args now s.published := by
  rw [view_modifyInstance (f := fun i => { i with discarded := true })
    (g := fun m => { m with discarded := true }) (fun _ => rfl) (fun _ => rfl), ht, add_modify]

/-- The new instance is published. -/
theorem view_publish (ht : t.view = s.view.add m args now s.published) :
    ({ t with published } : Session).view = s.view.add m args now published := by
  have hset : ({ t with published } : Session).view
      = { t.view with outline := { t.view.outline with published } } := rfl
  rw [hset, ht]
  rfl

end New

/-- What is fixed once the arguments are accepted: the kind, and what the hooks
and the arguments made of it. -/
structure Constructs (s : Session) (k : Kind) (args : Args) : Prop where
  kind : s.catalog.kinds.get? k.name = some k
  accepts : k.Accepts args
  identifies : s.catalog.IdentifiesByStatics

/-- The cache took the arguments, so it holds them and nothing else. -/
theorem constructs_of_cacheOf (hsound : s.view.outline.Sound)
    (hidentifies : s.catalog.IdentifiesByStatics) (hk : s.catalog.kinds.get? k.name = some k)
    {cache : Cache} (hcache : k.cacheOf s.config.engine s.now args = .ok cache) :
    Constructs s k args
      ∧ ({ s with instances := s.instances ++ [Instance.mk k "" cache false] } : Session).view
        = s.view.add ⟨k, "", false⟩ args s.now s.published := by
  have hname : ∀ {f spec}, k.info.field? f = some spec → spec.name = f :=
    fun hspec => hsound.lawful.fieldName ((Catalog.field?_of_kind hk).trans hspec)
  obtain ⟨haccepts, hslots⟩ := Kind.cacheOf_sound hname hcache
  exact ⟨⟨hk, haccepts, hidentifies⟩, view_allocate hslots⟩

/-- The new instance is listed under its address, if that is free. -/
theorem Constructs.lists (h : Constructs s k args) {id : String}
    (hfree : s.published.get? (instanceAddress k.name id) = none) :
    s.view.Lists ⟨k, id, false⟩ (s.published.insert (instanceAddress k.name id) s.view.next) :=
  ⟨h.kind, fun _ => ⟨hfree, rfl⟩, nofun⟩

/-- The static fields of the new instance were given to it. -/
theorem Constructs.given (h : Constructs s k args) {t : Session} {now : Int}
    (ht : t.view = s.view.add ⟨k, "", false⟩ args now s.published) {f : String}
    (hf : ∃ spec, k.info.field? f = some spec ∧ spec.isStatic = true) :
    ∃ m spec r, t.view.outline.Declares (s.view.next, f) m spec
      ∧ t.view.result? (s.view.next, f) = some r := by
  obtain ⟨spec, hspec, hstatic⟩ := hf
  obtain ⟨w, hw⟩ := h.accepts.given hspec hstatic
  rw [ht]
  refine ⟨⟨k, "", false⟩, spec, .ok w, ⟨by rw [View.add_member?, if_pos rfl], rfl, hspec⟩, ?_⟩
  rw [View.result?, View.add_slots_new, hw]
  rfl

/-- The id of a new instance is chosen without any change. -/
theorem chooseId_ends (h : Constructs s k args) {t : Session} {now : Int}
    (ht : t.view = s.view.add ⟨k, "", false⟩ args now s.published) (forced : Option String) :
    Ends (fun call => chooseId call k s.view.next forced) t fun _ u => u.view = t.view := by
  unfold chooseId
  cases forced with
  | some id => exact .pure rfl
  | none =>
    cases hid : k.idLogic with
    | none => exact .pure rfl
    | some logic =>
      dsimp only
      refine .next (runOn_note _) (.next runOn_get ?_)
      refine (reads_ends (h.identifies h.kind hid _ _) ?_).mono fun _ u hu => by rw [hu]; rfl
      exact fun f hf => h.given ht hf

/-! ## §3. Waking watched fields. -/

theorem runOn_wake_of_unwatched {call : Performer} {n : Nat} {i : Instance} {field : String}
    (hi : s.instance? n = some i) (h : s.watches.hasWatchers (i.fieldAddress field) = false) :
    (wake call n field).runOn s = some (.ok (), s) := by
  simp [wake, runOn_bind, runOn_getInstance hi, h]

section Protocol

variable {Allows : String → Prop} {V : View → Node → Outcome → Prop}
  {J : List Task → View → Prop} (P : Protocol Allows V J)

include P

/-- A field of a new instance is registered and computed if somebody watches
it, and then its followers run. -/
theorem wake_ends {x : Node} {m : Member} {spec : FieldSpec} {tasks : List Task}
    (h : J (.wake x :: tasks) s.view) (hx : s.view.outline.Declares x m spec) :
    Ends (fun call => wake call x.1 x.2) s fun a t =>
      a = .ok () ∧ J tasks t.view ∧ t.view.outline = s.view.outline := by
  obtain ⟨i, hi, rfl⟩ := instance_of_member? hx.member
  by_cases hwatched : s.view.Watched (i.member.address x.2)
  · have hhas : s.watches.hasWatchers (i.fieldAddress x.2) = true :=
      View.hasWatchers_iff.2 hwatched
    unfold wake
    refine .next (runOn_getInstance hi) (.next runOn_get ?_)
    simp only [hhas, if_true]
    have hboth : Ends (fun call => do
        call (.register x.1 x.2)
        call (.compute x.1 x.2)) s fun a t => ∃ v, J (.wake x :: tasks) v ∧ s.view.Extends v
          ∧ v.Attached x ∧ v.Fills (fun _ => True) (V v) t.view ∧ Attempted (V v) x a t.view := by
      refine .bind_ok (register_ends P h ⟨i.member, spec, hx⟩) ?_
      rintro t ⟨hJ, hext, hattached⟩
      refine (compute_task_ends P hJ (hext.outline ▸ ⟨i.member, spec, hx⟩)).mono ?_
      exact fun a u hu => ⟨t.view, hJ, hext, hattached, hu.1, hu.2⟩
    -- whatever the two answer, the callbacks run if there is an entry afterwards
    refine .ignore_bind hboth ?_
    rintro a t ⟨v, hJ, hext, hattached, hfills, r, hV, hcases⟩
    have hto : t.view.outline = s.view.outline := hfills.outline.trans hext.outline
    obtain ⟨j, hj, -⟩ := instance_of_member? (hto ▸ hx.member)
    refine .next (runOn_getInstance hj) ?_
    have hslot := slots_of_instance hj x.2
    rcases hcases with ⟨rfl, -, hnone⟩ | ⟨hset, -⟩
    · have hget : (j.cache.get? x.2).isSome = false := by
        rw [Cache.get?, hslot.symm.trans hnone]
        rfl
      simp only [hget, Bool.false_eq_true, if_false]
      exact .pure ⟨rfl, P.dozes hJ hattached hfills hV hnone, hto⟩
    · obtain ⟨e, he, hr⟩ := id hset
      have hget : (j.cache.get? x.2).isSome = true := by
        rw [Cache.get?, hslot.symm.trans he]
        rfl
      simp only [hget, if_true]
      have hJ' := P.wakes hJ hattached (hext.outline ▸ hx) hfills hset
      refine .bind_isOk (fire_ends P.toCascade hJ') ?_
      exact fun _ u hu => .pure ⟨rfl, hu.1, hu.2.outline.trans hto⟩
  · have hhas : s.watches.hasWatchers (i.fieldAddress x.2) = false :=
      Bool.eq_false_iff.2 fun hhas => hwatched (View.hasWatchers_iff.1 hhas)
    exact .of_runOn (fun _ => runOn_wake_of_unwatched hi hhas)
      ⟨rfl, P.sleeps h hx hwatched, rfl⟩

/-! ## §4. Creating. -/

/-- The fields of a new instance that are to be woken: none if it was
discarded. -/
def wakes (n : Nat) (m : Member) : List Task :=
  if m.discarded then [] else m.kind.info.fields.keys.map fun f => .wake (n, f)

/-- The new instance is published under its id, or discarded if there is one. -/
theorem publish_ends (h : Constructs s k args) {t : Session} {now : Int}
    (ht : t.view = s.view.add ⟨k, "", false⟩ args now s.published)
    (hnew : ∀ m published, m.kind = k → s.view.Lists m published →
      J (wakes s.view.next m) (s.view.add m args now published)) (id : String) :
    Ends (fun call => publish call k s.view.next id) t fun _ u => J [] u.view := by
  have hview := view_named ht id
  unfold publish
  refine .next (runOn_modify _) (.next runOn_get ?_)
  generalize t.modifyInstance s.view.next (fun i => { i with id }) = u at hview ⊢
  have hpublished : u.published = s.published := congrArg (fun v => v.outline.published) hview
  simp only [hpublished]
  cases hother : s.published.get? (instanceAddress k.name id) with
  | some other =>
    -- the address is taken, so the new instance is discarded
    refine .next (runOn_modify _) (.pure ?_)
    rw [view_discard hview]
    exact hnew ⟨k, id, true⟩ s.published rfl (.of_discarded h.kind rfl)
  | none =>
    let w : Session := { u with
      published := s.published.insert (instanceAddress k.name id) s.view.next }
    have hw : w.view = s.view.add ⟨k, id, false⟩ args now
        (s.published.insert (instanceAddress k.name id) s.view.next) := view_publish hview
    have hJ : J (k.info.fields.keys.map fun f => .wake (s.view.next, f)) w.view := by
      rw [hw]
      exact hnew ⟨k, id, false⟩ _ rfl (h.lists hother)
    refine .next (runOn_set w) ?_
    -- what is left to do are the fields that were not woken yet
    have hloop := Ends.forM (f := fun f call => wake call s.view.next f)
      (I := fun fs t => J (fs.map fun f => .wake (s.view.next, f)) t.view
        ∧ t.view.outline = w.view.outline ∧ ∀ f ∈ fs, f ∈ k.info.fields.keys)
      (Q := fun a t => a = .ok () ∧ J [] t.view)
      (fun f fs t ⟨hJ, hto, hfs⟩ => by
        obtain ⟨spec, hspec⟩ := Option.isSome_iff_exists.1
          (Table.contains_iff_mem_keys.2 (hfs f List.mem_cons_self))
        have hx : t.view.outline.Declares (s.view.next, f) ⟨k, id, false⟩ spec := by
          rw [hto, hw]
          exact ⟨by rw [View.add_member?, if_pos rfl], rfl, hspec⟩
        refine (wake_ends P hJ hx).mono ?_
        rintro a u ⟨ha, hJ, huo⟩
        exact ⟨ha, hJ, huo.trans hto, fun g hg => hfs g (List.mem_cons_of_mem _ hg)⟩)
      (fun t ⟨hJ, _, _⟩ => ⟨rfl, hJ⟩)
      k.info.fields.keys w ⟨hJ, rfl, fun _ h => h⟩
    exact .bind_ok hloop fun _ ht => .pure ht

omit P in
theorem takeId_rest {forced : Option String} {rest : Args}
    (h : k.takeId args = .ok (forced, rest)) : rest = args.erase idArgument := by
  unfold Kind.takeId at h
  split at h
  · cases h; rfl
  · cases h; rfl
  · cases h; rfl
  · simp at h

/-- Once the logic before construction has run, an instance is added, and
published or discarded, unless the arguments are refused. -/
theorem construct_ends (hsound : s.view.outline.Sound)
    (hidentifies : s.catalog.IdentifiesByStatics) (hk : s.catalog.kinds.get? k.name = some k)
    (h : J [] s.view)
    (hnew : ∀ m published, m.kind = k → s.view.Lists m published →
      k.Accepts (args.erase idArgument) →
      J (wakes s.view.next m) (s.view.add m (args.erase idArgument) s.now published)) :
    Ends (fun call => construct call k args) s fun _ t => J [] t.view := by
  unfold construct
  cases htake : k.takeId args with
  | error e => exact .stop (runOn_ofResult _ s) h
  | ok taken =>
    obtain ⟨forced, rest⟩ := taken
    obtain rfl := takeId_rest htake
    refine .next (runOn_ofResult _ s) (.next runOn_get ?_)
    cases hcache : k.cacheOf s.config.engine s.now (args.erase idArgument) with
    | error e => exact .stop (runOn_ofResult _ s) h
    | ok cache =>
      obtain ⟨hconstructs, ht⟩ := constructs_of_cacheOf hsound hidentifies hk hcache
      have hnext : s.instances.length = s.view.next := by
        simp [view, View.next, outline]
      have hadded : ∀ m published, m.kind = k → s.view.Lists m published →
          J (wakes s.view.next m) (s.view.add m (args.erase idArgument) s.now published) :=
        fun m published hm hlists => hnew m published hm hlists hconstructs.accepts
      refine .next (runOn_ofResult _ s) ?_
      refine .next (x := s.view.next) (by rw [← hnext]; rfl) ?_
      refine .attempt_bind (chooseId_ends hconstructs ht forced) fun chosen u hu => ?_
      cases chosen with
      | ok id => exact publish_ends P hconstructs (hu.trans ht) hadded id
      | error e =>
        -- an instance whose id logic failed is discarded without an id
        refine .next (runOn_modify _) (.throw ?_)
        rw [view_discard (hu.trans ht)]
        exact hadded ⟨k, "", true⟩ s.published rfl (.of_discarded hk rfl)

/-- **Creating an instance** keeps what the new instance keeps. -/
theorem create_ends {kind : String} (hsound : s.view.outline.Sound)
    (hprepares : s.catalog.PreparesAlone) (hidentifies : s.catalog.IdentifiesByStatics)
    (h : J [] s.view)
    (hnew : ∀ m now published, s.catalog.get kind = .ok m.kind → s.view.Lists m published →
      m.kind.Accepts (s.constructorArgs kind args) →
      J (wakes s.view.next m) (s.view.add m (s.constructorArgs kind args) now published)) :
    Ends (fun call => call (.create kind args)) s fun _ t => J [] t.view := by
  refine .call ?_
  show Ends (fun call => create call kind args) s _
  unfold create
  refine .next runOn_get ?_
  cases hget : s.catalog.get kind with
  | error e => exact .stop (runOn_ofResult _ s) h
  | ok k =>
    have hk : s.catalog.kinds.get? k.name = some k := (hsound.lawful.kind_of_get hget).2
    refine .next (runOn_ofResult _ s) (.bind (prepare_ends hprepares hk) ?_ ?_)
    · rintro p t ⟨hp, ht⟩
      have hcatalog : t.catalog = s.catalog := congrArg (fun v => v.outline.catalog) ht
      cases p with
      | existing r => exact .pure (ht ▸ h)
      | proceed args' =>
        -- the constructor is given the arguments without the id
        have hargs : s.constructorArgs kind args = args'.erase idArgument := by
          simp only [constructorArgs, hget, ← hp]
        show Ends (fun call => construct call k args') t _
        refine construct_ends P (ht ▸ hsound) (hcatalog ▸ hidentifies) (hcatalog ▸ hk) (ht ▸ h) ?_
        rintro m published rfl hlists haccepts
        rw [ht] at hlists ⊢
        rw [← hargs] at haccepts ⊢
        exact hnew m t.now published hget hlists haccepts
    · rintro e t ⟨-, ht⟩
      exact ht ▸ h

end Protocol

end Session

end LazyFields
