/-
  LazyFields.Proofs.Session.Calm
  ────────────────────────────────
  **BETWEEN OPERATIONS NO FIELD IS OVERDUE.**

  `Thrifty` says of the journal of a session that no logic of a field without
  references was called twice for one instance, and `Calm` adds that no field is
  overdue.  Whatever memoizes keeps a session calm (`Calm.memoizes`).

  Creating an instance is the one operation that comes to a session which is not
  calm: somebody may watch a field of an instance that is not there yet.  Such
  fields are overdue when the instance is published, and they are all computed
  before the operation ends (`memoizing_wakes`, `calm_create`).
-/
import LazyFields.Proofs.Session.Memoizing
import LazyFields.Proofs.Session.OnField
import LazyFields.Proofs.Session.Parallel

namespace LazyFields

open LazyFields.Action (Memoizing Returns)

namespace Session

open LazyFields.Action

variable {s t u : Session} {x y : Node} {m : Member} {spec : FieldSpec} {c : Catalog}
  {o : Outline} {n : Nat} {field kind id : String} {k : Kind} {args : Args} {call : Performer}

/-! ## §1. Sessions in which no logic was called twice. -/

/-- No logic was called twice for a field that refers to nothing. -/
structure Thrifty (c : Catalog) (s : Session) : Prop where
  sound : s.view.outline.Sound
  catalog : s.view.outline.catalog = c
  orderly : s.Orderly s.view.outline
  /-- A field whose logic was called is settled. -/
  once : ∀ {x m spec}, s.view.outline.Declares x m spec → spec.isStatic = false → spec.refs = [] →
    (s.calls m x.2).length ≤ 1 ∧ (s.view.Open x → s.calls m x.2 = [])
  /-- Logic was called for instances that are there. -/
  others : ∀ {kind id field}, (∀ n m, s.view.outline.member? n = some m → m.discarded = false →
    m.kind.name = kind → m.id ≠ id) → callsOf kind id field s.journal = []

theorem Thrifty.memoizes (h : s.Thrifty c) (ht : t.Orderly s.view.outline)
    (k : s.Memoizes True t) : t.Thrifty c where
  sound := k.outline ▸ h.sound
  catalog := k.outline ▸ h.catalog
  orderly := k.outline ▸ ht
  once hx hcomputed hrefs := by
    rw [k.outline] at hx
    obtain ⟨hatmost, hnone⟩ := h.once hx hcomputed hrefs
    cases k.fate hx hcomputed fun _ => hrefs with
    | kept hslot hcalls =>
      rw [hcalls]
      exact ⟨hatmost, fun hopen => hnone (hopen.congr hslot.symm)⟩
    | failed hopen hfinished hcalls =>
      rw [hcalls]
      exact ⟨hatmost, fun hnot => absurd hfinished hnot.2⟩
    | called hopen hcalls hsettled =>
      rw [hcalls, hnone hopen]
      exact ⟨Nat.le_refl 1, fun hnot => absurd hnot hsettled.not_open⟩
  others hnone := by
    rw [k.outline] at hnone
    rw [k.others hnone, h.others hnone]

/-- Nobody called the logic of a new instance. -/
theorem Thrifty.add (h : s.Thrifty c) {now : Int} {published : Table Nat}
    (hm : s.view.Lists m published) (hview : t.view = s.view.add m args now published)
    (hcalls : s.SameCalls t) : t.Thrifty c where
  sound := hview ▸ View.sound_add h.sound hm
  catalog := hview ▸ h.catalog
  orderly := by
    refine ⟨rfl, fun {address watcher f} hf => ?_⟩
    rw [hview] at hf ⊢
    have hfits := h.orderly.fits hf
    cases f with
    | report n field name =>
      obtain ⟨m', hm'⟩ := hfits
      exact ⟨m', View.add_member?_old hm'⟩
    | recompute n field =>
      obtain ⟨m', spec, reference, hx, hrest⟩ := hfits
      exact ⟨m', spec, reference, (View.grows_add hm).declares hx, hrest⟩
  once {x m' spec} hx hcomputed hrefs := by
    have hsame : t.calls m' x.2 = s.calls m' x.2 := hcalls _ _ _
    rw [hview] at hx ⊢
    rw [hsame]
    rcases View.declares_add hx with hold | ⟨-, rfl, hkept, -⟩
    · obtain ⟨hatmost, hnone⟩ := h.once hold hcomputed hrefs
      exact ⟨hatmost, fun hopen => hnone (hopen.congr (View.add_slots_old hold.member).symm)⟩
    · -- no other instance has its kind and id
      have hnone : s.calls m' x.2 = [] := by
        refine h.others ?_
        intro j m₂ hj hkept₂ hkind hid
        have hpublished := h.sound.published.2 ⟨m₂, hj, hkept₂, rfl⟩
        rw [hkind, hid, (hm.kept hkept).1] at hpublished
        cases hpublished
      rw [hnone]
      exact ⟨Nat.zero_le 1, fun _ => rfl⟩
  others {kind id field} hnone := by
    rw [hcalls]
    refine h.others ?_
    intro j m' hj hkept hkind
    rw [hview] at hnone
    exact hnone j m' (View.add_member?_old hj) hkept hkind

/-- Between operations no field is overdue either. -/
structure Calm (c : Catalog) (s : Session) : Prop extends Thrifty c s where
  timely : ∀ x, ¬ s.view.Overdue x

theorem Calm.memoizes (h : s.Calm c) (ht : t.Orderly s.view.outline) (k : s.Memoizes True t) :
    t.Calm c :=
  ⟨h.toThrifty.memoizes ht k, fun x hover => h.timely x (k.overdue hover)⟩

/-! ## §2. Creating. -/

/-- A field of a new instance is computed if somebody watches it, and then its
followers run. -/
theorem memoizing_wake (h : call.Memoizes True o) (hs : s.Orderly o) (hn : o.Keeps x.1) :
    Memoizing True o (wake call x.1 x.2) s fun a t => a = .ok () ∧ ¬ t.view.Overdue x := by
  obtain ⟨m, hm, hkept⟩ := id hn
  obtain ⟨i, hi, rfl⟩ := hs.instance? hm
  unfold wake
  refine .next (runOn_getInstance hi) (.next runOn_get ?_)
  by_cases hwatched : s.view.Watched (i.member.address x.2)
  · have hhas : s.watches.hasWatchers (i.fieldAddress x.2) = true := View.hasWatchers_iff.2 hwatched
    simp only [hhas, if_true]
    -- what somebody watches is registered and computed, and is not overdue after that
    have hboth : Memoizing True o (do
        call (.register x.1 x.2)
        call (.compute x.1 x.2)) s fun _ t => ¬ t.view.Overdue x := by
      refine (h.register hs hn).bind ?_ ?_
      · intro _ t ht _ _
        refine Returns.mono (h.compute ht hn) ?_
        rintro a u ⟨hu, htu, htried⟩
        exact ⟨hu, htu, htried.not_overdue hu⟩
      · intro e t hst hok hover
        obtain ⟨m, spec, hx, -⟩ := (hst.overdue hover).bare
        cases hok ⟨m, spec, hs.outline ▸ hx⟩
    refine Memoizing.bind (.ignore (R := fun a t => a = .ok () ∧ ¬ t.view.Overdue x)
      (hboth.mono fun _ _ hdone => ⟨rfl, hdone⟩)) ?_ fun _ _ _ herror => by cases herror.1
    intro _ t ht _ hdone
    obtain ⟨j, hj, -⟩ := ht.instance? hm
    refine .next (runOn_getInstance hj) ?_
    split
    · refine Memoizing.bind (h.fire ht (.inl trivial)) ?_ ?_
      · intro _ u hu htu _
        exact .pure hu ⟨rfl, fun hover => hdone.2 (htu.overdue hover)⟩
      · rintro e u - ⟨count, ha⟩
        cases ha
    · exact .pure ht ⟨rfl, hdone.2⟩
  · have hhas : s.watches.hasWatchers (i.fieldAddress x.2) = false :=
      Bool.eq_false_iff.2 fun hhas => hwatched (View.hasWatchers_iff.1 hhas)
    simp only [hhas, Bool.false_eq_true, if_false]
    refine .pure hs ⟨rfl, fun hover => hwatched ?_⟩
    obtain ⟨-, -, m', hm', hw⟩ := hover
    rw [hs.outline] at hm'
    obtain rfl : i.member = m' := Option.some.inj (hm.symm.trans hm')
    exact hw

/-- **All fields of a new instance are woken**, and then none of them is overdue. -/
theorem memoizing_wakes (h : call.Memoizes True o) (hs : s.Orderly o)
    (hm : o.member? n = some m) (hkept : m.discarded = false)
    (hnew : ∀ x, s.view.Overdue x → x.1 = n) :
    Memoizing True o (m.kind.info.fields.keys.forM (wake call n)) s fun a t =>
      a = .ok () ∧ ∀ x, ¬ t.view.Overdue x := by
  have hkeys : ∀ x, s.view.Overdue x → x.1 = n ∧ x.2 ∈ m.kind.info.fields.keys := by
    intro x hover
    obtain ⟨m', spec, hx, -⟩ := id hover.bare
    obtain rfl := hnew x hover
    rw [hs.outline] at hx
    obtain rfl : m = m' := Option.some.inj (hm.symm.trans hx.member)
    refine ⟨rfl, Table.contains_iff_mem_keys.1 ?_⟩
    exact Option.isSome_iff_exists.2 ⟨spec, hx.field⟩
  refine (Memoizing.forM (I := fun fs t => ∀ x, t.view.Overdue x → x.1 = n ∧ x.2 ∈ fs) ?_
    s hs hkeys).mono fun a t ht => ⟨ht.1, fun x hover => absurd (ht.2 x hover).2 (by simp)⟩
  intro f fs t ht hover
  refine Returns.mono (memoizing_wake (x := (n, f)) h ht ⟨m, hm, hkept⟩) ?_
  rintro a u ⟨hu, htu, ha, hdone⟩
  refine ⟨hu, htu, ha, fun x hx => ?_⟩
  obtain ⟨hn, hf⟩ := hover x (htu.overdue hx)
  refine ⟨hn, (List.mem_cons.1 hf).resolve_left fun heq => hdone ?_⟩
  obtain rfl : x = (n, f) := Prod.ext hn heq
  exact hx

/-- Only fields of the new instance become overdue by it. -/
theorem overdue_of_add {now : Int} {published : Table Nat}
    (h : (s.view.add m args now published).Overdue x) :
    s.view.Overdue x ∨ x.1 = s.view.next ∧ m.discarded = false := by
  obtain ⟨⟨m', spec, hx, hcomputed, hrefs⟩, hopen, m₂, hm₂, hwatched⟩ := h
  rcases View.declares_add hx with hold | ⟨hnew, -, hkept, -⟩
  · obtain rfl : m' = m₂ := Option.some.inj (hx.member.symm.trans hm₂)
    exact .inl ⟨⟨m', spec, hold, hcomputed, hrefs⟩,
      hopen.congr (View.add_slots_old hold.member).symm, m', hold.member, hwatched⟩
  · exact .inr ⟨hnew, hkept⟩

/-- An instance that is discarded leaves everything as it was. -/
theorem Calm.discard (h : s.Calm c) (hk : s.catalog.kinds.get? k.name = some k) {now : Int}
    (hview : t.view = s.view.add ⟨k, id, true⟩ args now s.published) (hcalls : s.SameCalls t) :
    t.Calm c := by
  have hlists : s.view.Lists ⟨k, id, true⟩ s.published := .of_discarded hk rfl
  refine ⟨h.add hlists hview hcalls, fun x hover => ?_⟩
  rw [hview] at hover
  rcases overdue_of_add hover with hold | ⟨-, hkept⟩
  · exact h.timely x hold
  · cases hkept

/-- What runs before construction is no logic of a field. -/
theorem prepare_returns (halone : s.catalog.PreparesAlone)
    (hk : s.catalog.kinds.get? k.name = some k) :
    (prepare call k args).Returns s fun _ t => t.view = s.view ∧ s.SameCalls t := by
  unfold prepare
  cases hinit : k.init with
  | none => exact .of_runOn (runOn_pure _ _) ⟨rfl, fun _ _ _ => rfl⟩
  | some logic =>
    refine .next (runOn_note _) (.next runOn_get ?_)
    obtain ⟨r, hr⟩ := halone hk hinit args ((s.record (.initialized k.name args)).initCalls k.name)
    rw [hr]
    exact .of_runOn (runOn_ofResult r _) ⟨rfl, fun _ _ _ => callsOf_cons_of_ne (by simp)⟩

/-- Id logic that reads static fields calls no logic of a field. -/
theorem chooseId_returns (h : Constructs s k args) {now : Int}
    (ht : t.view = s.view.add ⟨k, "", false⟩ args now s.published) (fuel : Nat)
    (forced : Option String) :
    (chooseId (perform fuel) k s.view.next forced).Returns t fun _ u =>
      u.view = t.view ∧ t.SameCalls u := by
  unfold chooseId
  cases forced with
  | some id => exact .of_runOn (runOn_pure _ _) ⟨rfl, fun _ _ _ => rfl⟩
  | none =>
    cases hid : k.idLogic with
    | none => exact .of_runOn (runOn_pure _ _) ⟨rfl, fun _ _ _ => rfl⟩
    | some logic =>
      refine .next (runOn_note _) (.next runOn_get fun r u hrun => ?_)
      -- id logic reads static fields, and the new instance was given those
      have hreads := reads_ends (s := t.record (.identified k.name))
        (h.identifies h.kind hid ⟨s.view.next, k.name, ""⟩
          ((t.record (.identified k.name)).idCalls k.name)) fun f hf => h.given ht hf
      obtain rfl := hreads.of_perform (fun hcall => Program.run_refines hcall _) hrun
      exact ⟨rfl, fun _ _ _ => callsOf_cons_of_ne (by simp)⟩

section Create

variable (halone : c.ComputesAlone) (hready : c.ComputesReady)

include halone hready

/-- The new instance is published and woken, or discarded. -/
theorem calm_publish (hs : s.Calm c) (h : Constructs s k args) {now : Int}
    (ht : t.view = s.view.add ⟨k, "", false⟩ args now s.published) (hcalls : s.SameCalls t)
    (fuel : Nat) (id : String) :
    (publish (perform fuel) k s.view.next id).Returns t fun _ u => u.Calm c := by
  have hview := view_named ht id
  unfold publish
  refine .next (runOn_modify _) (.next runOn_get ?_)
  have hsame : s.SameCalls (t.modifyInstance s.view.next fun i => { i with id }) := hcalls
  generalize t.modifyInstance s.view.next (fun i => { i with id }) = u at hview hsame ⊢
  have hpublished : u.published = s.published := congrArg (fun v => v.outline.published) hview
  simp only [hpublished]
  cases hother : s.published.get? (instanceAddress k.name id) with
  | some other =>
    -- the address is taken, so the new instance is discarded
    exact .next (runOn_modify _) (.of_runOn (runOn_pure _ _)
      (hs.discard h.kind (view_discard hview) hsame))
  | none =>
    let w : Session := { u with
      published := s.published.insert (instanceAddress k.name id) s.view.next }
    have hw : w.view = s.view.add ⟨k, id, false⟩ args now
        (s.published.insert (instanceAddress k.name id) s.view.next) := view_publish hview
    have hthrifty : w.Thrifty c := hs.add (h.lists hother) hw hsame
    have hm : w.view.outline.member? s.view.next = some ⟨k, id, false⟩ := by
      rw [hw, View.add_member?, if_pos rfl]
    have hperform := memoizing_perform hthrifty.sound (hthrifty.catalog ▸ halone)
      (hthrifty.catalog ▸ hready) True fuel
    -- what is overdue now is a field of the new instance, and waking computes those
    have hwakes := memoizing_wakes hperform hthrifty.orderly hm rfl fun x hover => by
      rw [hw] at hover
      exact ((overdue_of_add hover).resolve_left (hs.timely x)).1
    refine .next (runOn_set w) (.bind hwakes ?_ ?_)
    · rintro _ v ⟨hv, hwv, -, htimely⟩
      exact .of_runOn (runOn_pure _ _) ⟨hthrifty.memoizes hv hwv, htimely⟩
    · rintro e v ⟨-, -, he, -⟩
      cases he

/-- Once the logic before construction has run, an instance is added, and
published or discarded, unless the arguments are refused. -/
theorem calm_construct (hs : s.Calm c) (hidentifies : s.catalog.IdentifiesByStatics)
    (hk : s.catalog.kinds.get? k.name = some k) (fuel : Nat) :
    (construct (perform fuel) k args).Returns s fun _ t => t.Calm c := by
  unfold construct
  cases htake : k.takeId args with
  | error e => exact .stop (runOn_ofResult _ s) hs
  | ok taken =>
    obtain ⟨forced, rest⟩ := taken
    obtain rfl := takeId_rest htake
    refine .next (runOn_ofResult _ s) (.next runOn_get ?_)
    cases hcache : k.cacheOf s.config.engine s.now (args.erase idArgument) with
    | error e => exact .stop (runOn_ofResult _ s) hs
    | ok cache =>
      obtain ⟨hconstructs, ht⟩ := constructs_of_cacheOf hs.sound hidentifies hk hcache
      have hnext : s.instances.length = s.view.next := by
        simp [view, View.next, outline]
      refine .next (runOn_ofResult _ s) (.next (runOn_allocate s k cache) ?_)
      rw [hnext]
      refine .bind (Returns.attempt (R := fun a u => ∃ a', a = .ok a'
        ∧ u.view = (s.allocated k cache).view ∧ (s.allocated k cache).SameCalls u)
        ((chooseId_returns hconstructs ht fuel forced).mono fun a u hu => ⟨a, rfl, hu⟩)) ?_ ?_
      · rintro chosen u ⟨_, hchosen, hu, hcalls⟩
        cases hchosen
        cases chosen with
        | ok id => exact calm_publish halone hready hs hconstructs (hu.trans ht) hcalls fuel id
        | error e =>
          -- an instance whose id logic failed is discarded without an id
          exact .next (runOn_modify _) (.of_runOn (runOn_throw _ _)
            (hs.discard hk (view_discard (hu.trans ht)) hcalls))
      · rintro e u ⟨_, he, -⟩
        cases he

/-- **Creating an instance** calls no logic twice, and leaves no field overdue. -/
theorem calm_create (hs : s.Calm c) (hprepares : c.PreparesAlone)
    (hidentifies : c.IdentifiesByStatics) (fuel : Nat) (kind : String) :
    (create (perform fuel) kind args).Returns s fun _ t => t.Calm c := by
  have hcatalog : s.catalog = c := hs.catalog
  unfold create
  refine .next runOn_get ?_
  cases hget : s.catalog.get kind with
  | error e => exact .stop (runOn_ofResult _ s) hs
  | ok k =>
    have hk : s.catalog.kinds.get? k.name = some k := (hs.sound.lawful.kind_of_get hget).2
    refine .next (runOn_ofResult _ s) (.bind (prepare_returns (hcatalog ▸ hprepares) hk) ?_ ?_)
    · rintro p t ⟨ht, hcalls⟩
      have htc : t.Calm c := hs.memoizes (hs.orderly.congr (by rw [ht]) (by rw [ht]))
        (.of_view ht hcalls)
      have hsame : t.catalog = s.catalog := congrArg (fun v => v.outline.catalog) ht
      cases p with
      | existing r => exact .of_runOn (runOn_pure _ _) htc
      | proceed args' =>
        exact calm_construct halone hready htc (hsame ▸ hcatalog ▸ hidentifies) (hsame ▸ hk) fuel
    · rintro e t ⟨ht, hcalls⟩
      exact hs.memoizes (hs.orderly.congr (by rw [ht]) (by rw [ht])) (.of_view ht hcalls)

end Create

/-! ## §3. Searching, and watching no more. -/

theorem memoizing_live (hs : s.Orderly o) (n : Nat) :
    Memoizing True o (requireLive n) s fun _ _ => True := by
  unfold requireLive
  cases hi : s.instance? n with
  | none =>
    intro a t hrun
    simp [getInstance, runOn_bind, hi] at hrun
  | some i =>
    refine .next (runOn_getInstance hi) (.next runOn_get ?_)
    split
    · exact .pure hs trivial
    · exact .throw hs trivial

theorem memoizing_lookup (hs : s.Orderly o) (kind id : String) :
    Memoizing True o (lookup kind id) s fun _ _ => True := by
  unfold lookup
  refine .next runOn_get ?_
  cases s.find kind id with
  | error e => exact .stop hs (runOn_ofResult _ s) trivial
  | ok n => exact .next (runOn_ofResult _ s) (.pure hs trivial)

theorem memoizing_listKind (hs : s.Orderly o) (kind : String) :
    Memoizing True o (listKind kind) s fun _ _ => True := by
  unfold listKind
  refine .next runOn_get ?_
  cases s.list kind with
  | error e => exact .stop hs (runOn_ofResult _ s) trivial
  | ok ns => exact .next (runOn_ofResult _ s) (.pure hs trivial)

theorem keeps_of_list (ho : s.view.outline.Sound) {ns : List Nat} (hns : s.list kind = .ok ns)
    (hn : n ∈ ns) : s.view.outline.Keeps n := by
  cases hget : s.catalog.get kind with
  | error e => simp [list, hget, Bind.bind, Except.bind] at hns
  | ok k =>
    obtain ⟨m, hm, hkept, -⟩ := member_of_list ho.upright hget hns hn
    exact ⟨m, hm, hkept⟩

theorem memoizing_firstWhere (h : call.Memoizes True o) {value : Value} {ns : List Nat}
    (hns : ∀ n ∈ ns, o.Keeps n) : ∀ s : Session, s.Orderly o →
      Memoizing True o (firstWhere call field value ns) s fun _ _ => True := by
  induction ns with
  | nil => exact fun s hs => .pure hs trivial
  | cons n ns ih =>
    intro s hs
    have ih := ih fun k hk => hns k (List.mem_cons_of_mem _ hk)
    unfold firstWhere
    refine .attempt_bind (h.field (x := (n, field)) hs (hns n List.mem_cons_self) (.inl trivial)) ?_
    intro a t ht _ _
    cases a with
    | error e => exact ih t ht
    | ok v =>
      dsimp only
      split
      · exact .pure ht trivial
      · exact ih t ht

/-- Searching reads fields of instances that are there. -/
theorem memoizing_findWhere (h : call.Memoizes True s.view.outline) (hs : s.view.outline.Sound)
    (horderly : s.Orderly s.view.outline) (value : Value) :
    Memoizing True s.view.outline (findWhere call kind field value) s fun _ _ => True := by
  unfold findWhere
  refine .next runOn_get ?_
  cases hlist : s.list kind with
  | error e => exact .stop horderly (runOn_ofResult _ s) trivial
  | ok ns =>
    refine .next (runOn_ofResult _ s) (.bind (memoizing_firstWhere h
      (fun n hn => keeps_of_list hs hlist hn) s horderly) ?_ fun _ _ _ _ => trivial)
    intro found t ht _ _
    cases found with
    | none => exact .throw ht trivial
    | some n => exact .next runOn_get (.pure ht trivial)

/-- No field becomes overdue when a watcher goes. -/
theorem Calm.unwatch (h : s.Calm c) (watcher : String) :
    Calm c { s with watches := s.watches.unwatch watcher } := by
  have hfewer : ∀ {address name f},
      ((s.view.unwatch watcher).callbacks address).get? name = some f →
        (s.view.callbacks address).get? name = some f := WatchGraph.get?_callbacks_of_unwatch
  refine h.memoizes ⟨rfl, fun hf => h.orderly.fits (hfewer hf)⟩
    (.of_same rfl rfl (fun _ _ _ => rfl) ?_)
  rintro x ⟨hbare, hopen, m, hm, name, f, hf⟩
  exact ⟨hbare, hopen, m, hm, name, f, hfewer hf⟩

/-- A session in which nothing has happened is calm. -/
theorem calm_new (hlawful : c.Lawful) (halone : c.ComputesAlone) (config : Config) (now : Int) :
    Calm c (.new c config now) where
  sound := (regular_new config hlawful halone now).sound
  catalog := rfl
  orderly := ⟨rfl, fun hf => by simp [Session.new, view, View.callbacks] at hf⟩
  once hx := by
    have hmember := hx.member
    simp [Session.new, view, outline, Outline.member?] at hmember
  others _ := rfl
  timely x hover := by
    obtain ⟨m, spec, hx, -⟩ := hover.bare
    have hmember := hx.member
    simp [Session.new, view, outline, Outline.member?] at hmember

end Session

end LazyFields
