/-
  LazyFields.Proofs.Session.WatchClosure
  ────────────────────────────────
  **WHO WATCHES WHAT BETWEEN OPERATIONS.**

  Between operations the watch graph is closed: a field that somebody watches,
  or that was registered once, watches everything that it refers to, also what
  is not there yet (`connected_of_recorded`).

    · `performWithout` — performs operations but for the registration of one
      field, so that an answer it does not have tells of that registration
    · `closes_perform` — operations within others close, by induction on how
      deep they nest
    · `Building` — an instance under construction; the loop that wakes its
      fields may make other fields of it heard, before it and after it
      (`closesAt_wakes`)
    · `Attentive` — the invariant of a run, with one lemma for each sort of step
    · `separator_disconnects` — following a field that does not exist may leave a
      field without its watches, if its name contains the separator
-/
import LazyFields.Proofs.Session.Refusal
import LazyFields.Proofs.Session.WakeUp
import LazyFields.Proofs.Session.Widening

namespace LazyFields

open LazyFields.Action (ClosesAt Closes)

/-! ## §1. Performing without one registration. -/

/-- The operation is to register the field. -/
def Operation.registers (x : Node) : Operation → Bool
  | .register n f => decide ((n, f) = x)
  | _ => false

namespace Session

open LazyFields.Action

variable {c : Catalog} {s t : Session} {x : Node} {n : Nat} {k : Kind}

/-- Perform an operation that nests less than `fuel` deep and never registers
the field. -/
def performWithout (x : Node) : Nat → Performer
  | 0 => fun _ => stuck
  | fuel + 1 => fun op => if op.registers x then stuck else step (performWithout x fuel) op

/-- While the operation is performed the field is registered: without that there
is no answer. -/
def Enrolls (fuel : Nat) (op : Operation) (s : Session) (x : Node) : Prop :=
  (performWithout x fuel op).runOn s = none

/-- **What is answered without the registration is the answer.** -/
theorem performWithout_refines (x : Node) (fuel : Nat) :
    Performer.Refines (performWithout x fuel) (perform fuel) := by
  induction fuel with
  | zero => exact fun _ => .stuck _
  | succ fuel ih =>
    intro op
    show (if op.registers x then stuck else step (performWithout x fuel) op).Refines _
    split
    · exact .stuck _
    · exact step_refines ih op

/-- To register a field from outside is to register it. -/
theorem enrolls_register (fuel : Nat) (s : Session) (x : Node) :
    Enrolls fuel (.register x.1 x.2) s x := by
  cases fuel with
  | zero => rfl
  | succ fuel => simp [Enrolls, performWithout, Operation.registers]

/-- A static field is read alike with the registration and without it. -/
theorem readsAlike_without (x : Node) (fuel : Nat) :
    ReadsAlike (perform fuel) (performWithout x fuel) := by
  intro s n i f spec hi hspec hstatic
  cases fuel with
  | zero =>
    intro _ _ r t hrun
    simp [perform] at hrun
  | succ fuel => exact copies_readField_static hi hspec hstatic _ _

/-! ## §2. Logic that asks nothing. -/

/-- A program that asks nothing is the same to every performer. -/
theorem run_of_passive {α : Type} {p : Program α} (h : p.IsPassive) (call call' : Performer) :
    p.run call = p.run call' := by
  obtain ⟨r, rfl⟩ := h
  rfl

/-- A program that asks nothing changes nothing. -/
theorem inert_of_passive {α : Type} {p : Program α} (h : p.IsPassive) (call : Performer) :
    Inert (p.run call) := by
  obtain ⟨r, rfl⟩ := h
  exact .ofResult r

/-- Logic that asks nothing is the same to both performers. -/
theorem closes_runLogic (halone : c.ComputesAlone) (x : Node) (call call' : Performer) (n : Nat)
    (info : FieldSpec) (field : String) (values : List Value) :
    Closes c x (runLogic call n info field values) (runLogic call' n info field values) := by
  intro s hs
  cases hi : s.instance? n with
  | none =>
    intro r t hrun
    simp [runLogic, runOn_bind, runOn_getInstance_of_none hi] at hrun
  | some i =>
    refine .next (runOn_getInstance hi) ?_
    cases hlogic : i.kind.compute? field with
    | none => exact .inert hs (inert_conclude n field _) fun _ _ _ => trivial
    | some logic =>
      have hkind := hs.kind (member?_of_instance hi)
      have hpassive := halone hkind hlogic ⟨n, i.kind.name, i.id⟩ values
      have C := closes_congruence c x
      refine C.bind (C.inert (inert_note _)) (fun _ => C.bind (C.inert inert_get) fun u =>
        C.bind (C.attempt ?_) fun _ => C.inert (inert_conclude n field _)) s hs
      rw [run_of_passive (hpassive _) call' call]
      exact C.inert (inert_of_passive (hpassive _) call)

/-- So is what runs before construction, if it asks nothing. -/
theorem closes_prepare (hprepares : c.PreparesAlone) (hk : c.kinds.get? k.name = some k) (x : Node)
    (call call' : Performer) (args : Args) :
    Closes c x (prepare call k args) (prepare call' k args) := by
  have C := closes_congruence c x
  unfold prepare
  split
  · exact C.pure _
  · next logic hlogic =>
    refine C.bind (C.inert (inert_note _)) fun _ => C.bind (C.inert inert_get) fun u => ?_
    have hpassive := hprepares hk hlogic args (u.initCalls k.name)
    rw [run_of_passive hpassive call' call]
    exact C.inert (inert_of_passive hpassive call)

/-! ## §3. Operations within operations. -/

/-- What changes no more than caches closes when the operations within it do. -/
theorem closes_step {fuel : Nat}
    (hcall : Performer.Closes c x (perform fuel) (performWithout x fuel)) (halone : c.ComputesAlone)
    {op : Operation} (hop : ¬ op.Reshapes) :
    Closes c x (perform (fuel + 1) op) (performWithout x (fuel + 1) op) := by
  have hother : op.registers x = false := by
    cases op with
    | register n field => exact absurd trivial hop
    | _ => rfl
  have hstep : performWithout x (fuel + 1) op = step (performWithout x fuel) op := by
    simp only [performWithout, hother, Bool.false_eq_true, if_false]
  rw [hstep]
  exact (closes_congruence c x).step hcall.inner (closes_runLogic halone x _ _) hop

/-- **Operations within others close,** and registering a field covers it,
however deep they nest. -/
theorem closes_perform (hlawful : c.Lawful) (halone : c.ComputesAlone) (x : Node) (fuel : Nat) :
    Performer.Closes c x (perform fuel) (performWithout x fuel) := by
  have C := closes_congruence c x
  induction fuel with
  | zero =>
    refine ⟨fun op _ => C.inert .stuck, fun hs => ?_⟩
    intro r t hrun
    simp [perform] at hrun
  | succ fuel ih =>
    have hregister : ∀ {s : Session} {n : Nat} {field : String}, s.Consistent c →
        ClosesAt c x (perform (fuel + 1) (.register n field))
          (performWithout x (fuel + 1) (.register n field)) s fun r t =>
            t.Covered (n, field) ∧ ∀ spec, s.Declares n field spec → r = .ok () := by
      intro s n field hs
      have hclosed := closesAt_register ih hlawful hs n field
      by_cases hx : (n, field) = x
      · -- the second performer is stuck here, but the field is covered
        intro r t hrun
        obtain ⟨ht, hwidens, hdone, -⟩ := hclosed r t hrun
        exact ⟨ht, hwidens, hdone, .inr (hx ▸ hdone.1)⟩
      · have hother : performWithout x (fuel + 1) (.register n field)
            = register (performWithout x fuel) n field :=
          if_neg (by simp [Operation.registers, hx])
        rw [hother]
        exact hclosed
    refine ⟨?_, hregister⟩
    intro op hinner
    cases op with
    | register n field => exact fun s hs => (hregister hs).mono fun _ _ _ _ => trivial
    | compute | recompute | field | resolve | trigger | fire => exact closes_step ih halone id
    | _ => exact absurd hinner id

/-! ## §4. Watching from outside. -/

section Watching

variable {call call' : Performer} {field : String}

/-- To watch a field covers it if it becomes heard by that. -/
theorem closesAt_watchField (hcall : call.Closes c x call') (hlawful : c.Lawful)
    (hs : s.Consistent c) (n : Nat) (field watcher : String) :
    ClosesAt c x (watchField call n field watcher) (watchField call' n field watcher) s
      fun _ _ => True := by
  have C := closes_congruence c x
  cases hi : s.instance? n with
  | none =>
    intro r t hrun
    simp [watchField, declared, runOn_bind, runOn_getInstance_of_none hi] at hrun
  | some i =>
    cases hspec : i.kind.info.field? field with
    | none =>
      have hrun : ∀ call, (watchField call n field watcher).runOn s
          = some (.error (.unknownField i.kind.name field), s) := by
        intro call
        rw [watchField, runOn_bind, runOn_declared_of_none hi hspec]
      exact .of_runOns (hrun call) (hrun call') hs (.refl s) trivial
    | some spec =>
      have hm : s.outline.member? n = some i.member := member?_of_instance hi
      let t := s.watching (i.fieldAddress field) watcher (.report n field watcher)
      have ht : t.Consistent c := hs.watching
      refine .next (runOn_declared hi hspec) (.next (runOn_getInstance hi) (.next runOn_get ?_))
      refine ClosesAt.shift (t := t)
        (P := fun _ u => (s.watches.callbacks (i.fieldAddress field)).isEmpty = true →
          u.Covered (n, field))
        (runOn_bind_ok (runOn_set _)) (runOn_bind_ok (runOn_set _)) ?_ ?_
      · dsimp only
        split
        · next hold =>
          -- whoever watches already is not the first one
          refine .of_runOn (runOn_pure () t) ht (.refl t) fun hempty => ?_
          simp [Table.contains, Table.isEmpty_iff.1 hempty] at hold
        · split
          · refine (hcall.register ht).bind ?_ fun _ _ hdone _ => hdone.1
            intro _ u _ hu _ hdone
            refine ((C.bind (C.attempt (hcall.inner (.compute n field) trivial)) fun r => ?_) u
              hu).mono fun _ _ hwidens _ _ => hdone.1.widen hwidens
            split
            · exact C.pure ()
            · exact C.runFollowUp hcall.inner _
          · next hold =>
            refine .inert ht (.bind (inert_cached? n field) fun cached => ?_)
              fun _ _ _ hempty => absurd hempty hold
            split
            · exact inert_note _
            · exact .pure ()
      · intro _ u hwidens hcovered
        refine ⟨hwidens.of_watching ?_, trivial⟩
        intro y m spec' hempty hy haddress
        have hfield : '\x00' ∉ field.toList :=
          (hlawful.isFieldName (p := (i.kind.name, field)) ((hs.catalog_field? hm).trans hspec)).2
        obtain ⟨_, m₂, hsource, hm₂, hkind, hid, hsame⟩ :=
          twins_own hlawful hs hm hfield y m spec' hy haddress
        cases hsource
        exact (hcovered hempty).twin (hwidens.evolves.member hm₂) (hwidens.evolves.member hy.member)
          hkind hid hsame

/-- The field that is followed need not be declared, but its name tells which one
it would be. -/
theorem closesAt_watchCompute (hcall : call.Closes c x call') (hlawful : c.Lawful)
    (hs : s.Consistent c) (hfield : '\x00' ∉ field.toList) (n follower : Nat)
    (followerField : String) :
    ClosesAt c x (watchCompute call n field follower followerField)
      (watchCompute call' n field follower followerField) s fun _ _ => True := by
  cases hi : s.instance? n with
  | none =>
    intro r t hrun
    simp [watchCompute, runOn_bind, runOn_getInstance_of_none hi] at hrun
  | some i =>
    refine .next (runOn_getInstance hi) ?_
    cases hj : s.instance? follower with
    | none =>
      intro r t hrun
      simp [follow, runOn_bind, runOn_getInstance_of_none hj] at hrun
    | some j =>
      have htwins := twins_own hlawful hs (member?_of_instance hi) hfield
      exact (closesAt_follow hcall hs (member?_of_instance hj) htwins).mono fun _ _ _ _ => trivial

end Watching

/-! ## §5. Instances. -/

/-- Since the first session an instance was added, which is not published yet. -/
structure Building (c : Catalog) (s : Session) (n : Nat) (m : Member) (u : Session) : Prop where
  hosts : s.outline.Hosts n m u.outline
  kind : ∀ {j m'}, u.outline.member? j = some m' → c.kinds.get? m'.kind.name = some m'.kind
  published : u.published = s.published
  watches : u.watches = s.watches

namespace Building

variable {m : Member} {u v : Session}

/-- A new instance is under construction. -/
theorem allocated (hs : s.Consistent c) (hk : c.kinds.get? k.name = some k) (cache : Cache) :
    Building c s s.instances.length ⟨k, "", false⟩ (s.allocated k cache) := by
  refine ⟨hosts_allocated hs.keyed k cache, ?_, rfl, rfl⟩
  intro j m' hm'
  obtain ⟨i, hi, rfl⟩ := instance_of_member? hm'
  rcases List.mem_append.1 (List.mem_of_getElem? hi) with hold | hnew
  · obtain ⟨l, hl⟩ := List.mem_iff_getElem?.1 hold
    exact hs.kind (member?_of_instance hl)
  · obtain rfl := List.mem_singleton.1 hnew
    exact hk

/-- It gets its id, or is discarded. -/
theorem modify (h : Building c s n m u) {f : Instance → Instance} {g : Member → Member}
    (hf : ∀ i, (f i).member = g i.member) (hg : ∀ m, (g m).kind = m.kind) :
    Building c s n (g m) (u.modifyInstance n f) := by
  have houtline := outline_modifyInstance hf u n
  refine ⟨houtline ▸ (h.hosts.modify g).1, ?_, h.published, h.watches⟩
  intro j m' hm'
  have hmember : (u.outline.members.modify n g)[j]? = some m' := by
    rw [houtline] at hm'
    exact hm'
  rw [List.getElem?_modify] at hmember
  obtain ⟨old, hold, rfl⟩ := Option.map_eq_some_iff.1 hmember
  split
  · rw [hg]
    exact h.kind hold
  · exact h.kind hold

/-- A session is consistent while an instance is under construction. -/
theorem consistent (h : Building c s n m u) (hs : s.Consistent c) : u.Consistent c where
  catalog := Eq.trans h.hosts.evolves.catalog hs.catalog
  live := Eq.trans h.hosts.evolves.live hs.live
  keyed := h.hosts.keyed
  kind := h.kind
  inverse := h.watches ▸ hs.inverse

/-- And it widens the one before. -/
theorem widens (h : Building c s n m u) (hs : s.Consistent c) : s.Widens u :=
  .of_evolves hs.keyed h.hosts.evolves h.published h.watches

/-- It is published, if its address is free.  From then on its fields may be
heard, so they have to be covered. -/
theorem publish (h : Building c s n m u) (hs : s.Consistent c) (hkept : m.discarded = false)
    {address : String} (haddress : instanceAddress m.kind.name m.id = address)
    (hfree : u.published.get? address = none) :
    ({ u with published := u.published.insert address n } : Session).Consistent c
      ∧ ∀ {t : Session}, ({ u with published := u.published.insert address n } : Session).Widens t →
        (∀ field ∈ m.kind.info.fields.keys, t.Heard (n, field) → t.Covered (n, field)) →
        s.Widens t := by
  have hu := h.consistent hs
  have hk : u.catalog.Has m.kind := by
    rw [hu.catalog]
    exact Catalog.has_of_get (Catalog.get_of_kind (h.kind h.hosts.member))
  obtain ⟨hevolves, hprecedes⟩ := h.hosts.publish hkept hk haddress hfree
  refine ⟨⟨hu.catalog, hu.live, hprecedes.keyed, h.kind, hu.inverse⟩, ?_⟩
  intro t hwidens hfields
  refine ⟨hevolves.trans hwidens.evolves, fun hlists => hwidens.lists (h.watches ▸ hlists), ?_⟩
  rintro ⟨y, field⟩ hheard
  rcases hwidens.heard hheard with ⟨m', spec, watcher, ⟨⟨other, hn⟩, hm', hspec⟩, hlists⟩ | hcovered
  · rw [Table.get?_insert] at hn
    split at hn
    · -- the field is one of the new instance
      cases hn
      obtain rfl : m' = m := Option.some.inj (hm'.symm.trans h.hosts.member)
      have hkey := Table.contains_iff_mem_keys.1 (Option.isSome_iff_exists.2 ⟨spec, hspec⟩)
      exact .inr (hfields field hkey hheard)
    · -- the others were published before
      left
      rw [h.published] at hn
      obtain ⟨old, hold, -⟩ := hs.keyed hn
      obtain rfl : m' = old := Option.some.inj (hm'.symm.trans (h.hosts.evolves.member hold))
      exact ⟨m', spec, watcher, ⟨⟨other, hn⟩, hold, hspec⟩, h.watches ▸ hlists⟩
  · exact .inr hcovered

end Building

section Create

variable {fuel : Nat} {field : String}

/-- A field of a new instance that is heard is covered once it was woken. -/
theorem closesAt_wake (hcall : Performer.Closes c x (perform fuel) (performWithout x fuel))
    (hs : s.Consistent c) (n : Nat) (field : String) :
    ClosesAt c x (wake (perform fuel) n field) (wake (performWithout x fuel) n field) s
      fun r t => r = .ok () ∧ (t.Heard (n, field) → t.Covered (n, field)) := by
  have C := closes_congruence c x
  have hcovers : ClosesAt c x (wake (perform fuel) n field) (wake (performWithout x fuel) n field) s
      fun _ t => t.Heard (n, field) → t.Covered (n, field) := by
    cases hi : s.instance? n with
    | none =>
      intro r t hrun
      simp [wake, runOn_bind, runOn_getInstance_of_none hi] at hrun
    | some i =>
      by_cases hwatched : s.watches.hasWatchers (i.fieldAddress field) = true
      · refine .next (runOn_getInstance hi) (.next runOn_get ?_)
        simp only [hwatched, if_true]
        have hregister : ClosesAt c x
            (perform fuel (.register n field) >>= fun _ => perform fuel (.compute n field))
            (performWithout x fuel (.register n field) >>= fun _ =>
              performWithout x fuel (.compute n field)) s fun _ t => t.Covered (n, field) := by
          refine (hcall.register hs).bind ?_ fun _ _ hdone => hdone.1
          intro _ t _ ht _ hdone
          exact (hcall.inner (.compute n field) trivial t ht).mono fun _ _ hwidens _ =>
            hdone.1.widen hwidens
        refine hregister.ignore.bind ?_ fun _ _ hdone _ => hdone.2
        intro _ t _ ht _ hdone
        refine ((C.bind (C.inert (inert_getInstance n)) fun j => ?_) t ht).mono
          fun _ _ hwidens _ _ => hdone.2.widen hwidens
        split
        · exact C.bind (hcall.inner (.fire _) trivial) fun _ => C.pure _
        · exact C.pure ()
      · have hnone := Bool.eq_false_iff.2 hwatched
        refine .of_runOns (runOn_wake_of_unwatched hi hnone) (runOn_wake_of_unwatched hi hnone) hs
          (.refl s) ?_
        rintro ⟨m, spec, watcher, hpublishes, hlists⟩
        -- nobody watches it
        obtain rfl := Option.some.inj (hpublishes.member.symm.trans (member?_of_instance hi))
        have hempty : (s.watches.callbacks (i.fieldAddress field)).isEmpty = true := by
          simpa [WatchGraph.hasWatchers] using hnone
        exact absurd hlists (WatchGraph.isEmpty_callbacks_iff.1 hempty watcher)
  intro r t hrun
  obtain ⟨ht, hwidens, hdone, hcopy⟩ := hcovers r t hrun
  refine ⟨ht, hwidens, ⟨?_, hdone⟩, hcopy⟩
  cases r with
  | ok => rfl
  | error e => exact absurd hrun (unfailing_wake fuel n field s e t)

/-- When an instance is woken, its fields that somebody waits for are covered. -/
theorem closesAt_wakes (hcall : Performer.Closes c x (perform fuel) (performWithout x fuel))
    (n : Nat) {fields : List String} : ∀ s : Session, s.Consistent c →
      ClosesAt c x (fields.forM (wake (perform fuel) n))
        (fields.forM (wake (performWithout x fuel) n)) s fun r t =>
          r = .ok () ∧ ∀ field ∈ fields, t.Heard (n, field) → t.Covered (n, field) := by
  induction fields with
  | nil =>
    intro s hs
    show ClosesAt c x (pure ()) (pure ()) s _
    exact .of_runOn (runOn_pure () s) hs (.refl s) ⟨rfl, by simp⟩
  | cons field fields ih =>
    intro s hs
    show ClosesAt c x
      (wake (perform fuel) n field >>= fun _ => fields.forM (wake (perform fuel) n))
      (wake (performWithout x fuel) n field >>= fun _ =>
        fields.forM (wake (performWithout x fuel) n)) s _
    refine (closesAt_wake hcall hs n field).bind ?_ ?_
    · intro _ t _ ht _ hdone
      refine (ih t ht).mono ?_
      intro r u hwidens hrest
      refine ⟨hrest.1, List.forall_mem_cons.2 ⟨fun hheard => ?_, hrest.2⟩⟩
      -- a field that is heard only since other fields are woken was covered by that
      rcases hwidens.heard hheard with hold | hcovered
      · exact (hdone.2 hold).widen hwidens
      · exact hcovered
    · rintro e t ⟨herror, -⟩
      cases herror

/-- **A new instance is published with all its heard fields covered,** or
discarded. -/
theorem closesAt_publish (hcall : Performer.Closes c x (perform fuel) (performWithout x fuel))
    (hs : s.Consistent c) {u : Session} (hu : Building c s n ⟨k, "", false⟩ u) {id : String}
    {a b : Action Ref} (ha : a.runOn s = (publish (perform fuel) k n id).runOn u)
    (hb : b.runOn s = (publish (performWithout x fuel) k n id).runOn u) :
    ClosesAt c x a b s fun _ _ => True := by
  have hnamed := hu.modify (f := fun i => { i with id }) (g := fun m => { m with id })
    (fun _ => rfl) fun _ => rfl
  cases hpublished : u.published.get? (instanceAddress k.name id) with
  | some other =>
    have hdiscarded := hnamed.modify (f := fun i => { i with discarded := true })
      (g := fun m => { m with discarded := true }) (fun _ => rfl) fun _ => rfl
    exact .of_runOns (ha.trans (runOn_publish_of_some hpublished))
      (hb.trans (runOn_publish_of_some hpublished)) (hdiscarded.consistent hs)
      (hdiscarded.widens hs) trivial
  | none =>
    obtain ⟨ht, hwidens⟩ := hnamed.publish hs rfl rfl hpublished
    refine .shift (P := fun _ t => ∀ field ∈ k.info.fields.keys,
        t.Heard (n, field) → t.Covered (n, field))
      (ha.trans (runOn_publish_of_none hpublished)) (hb.trans (runOn_publish_of_none hpublished))
      ?_ fun _ _ hafter hfields => ⟨hwidens hafter hfields, trivial⟩
    refine (closesAt_wakes hcall n _ ht).bind ?_ ?_
    · intro _ v _ hv _ hdone
      exact .of_runOn (runOn_pure _ v) hv (.refl v) hdone.2
    · rintro e v ⟨herror, -⟩
      cases herror

/-- What the id logic does leaves the new instance alone. -/
theorem closesAt_construct (hcall : Performer.Closes c x (perform fuel) (performWithout x fuel))
    (hidentifies : c.IdentifiesByStatics) (hs : s.Consistent c)
    (hk : c.kinds.get? k.name = some k) (args : Args) :
    ClosesAt c x (construct (perform fuel) k args) (construct (performWithout x fuel) k args) s
      fun _ _ => True := by
  cases htake : k.takeId args with
  | error e =>
    have hrun : ∀ call, (construct call k args).runOn s = some (.error e, s) := by
      intro call
      simp only [construct, runOn_bind, runOn_ofResult, htake]
    exact .of_runOns (hrun _) (hrun _) hs (.refl s) trivial
  | ok taken =>
    obtain ⟨forced, given⟩ := taken
    cases hcache : k.cacheOf s.config.engine s.now given with
    | error e =>
      have hrun : ∀ call, (construct call k args).runOn s = some (.error e, s) := by
        intro call
        simp only [construct, runOn_bind, runOn_ofResult, htake, runOn_get, hcache]
      exact .of_runOns (hrun _) (hrun _) hs (.refl s) trivial
    | ok cache =>
      -- id logic is answered alike by both performers, and only the journal shows it
      have hchoose := copies_chooseId_of_reads (readsAlike_without x fuel)
        (instance?_allocated s k cache) (hidentifies hk) forced
      have hnew := Building.allocated hs hk cache
      cases hid : (chooseId (perform fuel) k s.instances.length forced).runOn
          (s.allocated k cache) with
      | none =>
        intro r t hrun
        simp [construct, runOn_bind, htake, hcache, runOn_allocate, runOn_attempt, hid] at hrun
      | some p =>
        obtain ⟨chosen, u⟩ := p
        obtain ⟨hcopy, journal, rfl⟩ := hchoose _ rfl _ _ hid
        have hchosen : Building c s s.instances.length ⟨k, "", false⟩
            { s.allocated k cache with journal } :=
          ⟨hnew.hosts, hnew.kind, hnew.published, hnew.watches⟩
        cases chosen with
        | ok id =>
          exact closesAt_publish hcall hs hchosen (runOn_construct_of_ok htake hcache hid)
            (runOn_construct_of_ok htake hcache hcopy)
        | error e =>
          have hdiscarded := hchosen.modify (f := fun i => { i with discarded := true })
            (g := fun m => { m with discarded := true }) (fun _ => rfl) fun _ => rfl
          exact .of_runOns (runOn_construct_of_error htake hcache hid)
            (runOn_construct_of_error htake hcache hcopy) (hdiscarded.consistent hs)
            (hdiscarded.widens hs) trivial

/-- To create an instance covers those of its fields that somebody waits for. -/
theorem closesAt_create (hcall : Performer.Closes c x (perform fuel) (performWithout x fuel))
    (hlawful : c.Lawful) (hprepares : c.PreparesAlone) (hidentifies : c.IdentifiesByStatics)
    (hs : s.Consistent c) (kind : String) (args : Args) :
    ClosesAt c x (create (perform fuel) kind args) (create (performWithout x fuel) kind args) s
      fun _ _ => True := by
  refine .next runOn_get (.check hs ?_ fun _ => trivial)
  intro k hget
  have hk : c.kinds.get? k.name = some k := (hlawful.kind_of_get (hs.catalog ▸ hget)).2
  refine ClosesAt.bind (closes_prepare hprepares hk x _ _ args s hs) ?_ fun _ _ _ => trivial
  intro prepared t _ ht _ _
  cases prepared with
  | existing r => exact (closes_congruence c x).pure r t ht
  | proceed args => exact closesAt_construct hcall hidentifies ht hk args

end Create

end Session

/-! ## §6. Runs. -/

/-- The operation does not take away what watches in the name of a field. -/
def Operation.KeepsFields (c : Catalog) : Operation → Prop
  | unregister watcher => ¬ c.Addresses watcher
  | _ => True

/-- Whoever is to be followed is given by a name, in which the separator of
addresses does not occur. -/
def Operation.FollowsNames : Operation → Prop
  | watchCompute _ f _ _ => '\x00' ∉ f.toList
  | _ => True

namespace Session

open LazyFields.Action

variable {c : Catalog} {s t : Session} {x : Node} {op : Operation} {asked : Node → Prop}

/-- Every operation closes that takes no watch away. -/
theorem closes_operation (hlawful : c.Lawful) (halone : c.ComputesAlone)
    (hprepares : c.PreparesAlone) (hidentifies : c.IdentifiesByStatics)
    (hop : ∀ watcher, op ≠ .unregister watcher) (hfollows : op.FollowsNames) (x : Node)
    (fuel : Nat) : Closes c x (perform fuel op) (performWithout x fuel op) := by
  cases fuel with
  | zero => exact (closes_congruence c x).inert .stuck
  | succ fuel =>
    have hcall := closes_perform hlawful halone x fuel
    cases op with
    | register n field =>
      exact (closes_perform hlawful halone x (fuel + 1)).inner (.register n field) trivial
    | create kind args =>
      exact fun s hs => closesAt_create hcall hlawful hprepares hidentifies hs kind args
    | watch n field watcher =>
      exact fun s hs => closesAt_watchField hcall hlawful hs n field watcher
    | watchCompute n field follower followerField =>
      exact fun s hs => closesAt_watchCompute hcall hlawful hs hfollows n follower followerField
    | unregister watcher => exact absurd rfl (hop watcher)
    | _ => exact closes_step hcall halone id

/-- The session came about over the catalog by operations of the given sort, and
these are the fields that were registered on the way, from outside or by another
operation.  Whatever else its owner does may change caches, the time and the
journal. -/
inductive Recorded (c : Catalog) (Allows : Operation → Prop) : Session → (Node → Prop) → Prop
  | new (config : Config) (now : Int) : Recorded c Allows (.new c config now) fun _ => False
  | run {s t : Session} {asked : Node → Prop} {fuel : Nat} {op : Operation}
      {r : Except Error op.Answer} : Recorded c Allows s asked →
      s.run fuel op = some (r, t) → Allows op →
      Recorded c Allows t fun x => asked x ∨ Enrolls fuel op s x
  | edit {s t : Session} {asked : Node → Prop} : Recorded c Allows s asked →
      t.outline = s.outline → t.watches = s.watches → Recorded c Allows t asked

/-- Whoever is heard watches what it refers to, and so does whoever was
registered. -/
structure Attentive (c : Catalog) (asked : Node → Prop) (s : Session) : Prop where
  consistent : s.Consistent c
  heard : ∀ {x}, s.Heard x → s.Covered x
  asked : ∀ {x}, asked x → s.Covered x

/-- A new session is attentive: nobody is heard, and nothing was asked. -/
theorem attentive_new (c : Catalog) (config : Config) (now : Int) :
    Attentive c (fun _ => False) (.new c config now) := by
  refine ⟨⟨rfl, rfl, ?_, ?_, WatchGraph.inverse_empty⟩, ?_, fun h => h.elim⟩
  · intro address n hn
    simp [outline, Session.new] at hn
  · intro n m hm
    simp [outline, Session.new, Outline.member?] at hm
  · rintro x ⟨m, spec, watcher, ⟨⟨address, hn⟩, -, -⟩, -⟩
    simp [Session.new] at hn

/-- Only outline and watch graph count. -/
theorem Attentive.edit (h : Attentive c asked s) (houtline : t.outline = s.outline)
    (hwatches : t.watches = s.watches) : Attentive c asked t := by
  have hwidens := h.consistent.widens houtline hwatches
  refine ⟨h.consistent.congr houtline hwatches, ?_, fun hx => (h.asked hx).widen hwidens⟩
  intro x hx
  rcases hwidens.heard hx with hold | hcovered
  · exact (h.heard hold).widen hwidens
  · exact hcovered

/-- **An operation that takes no watch away.** -/
theorem Attentive.run (h : Attentive c asked s) {fuel : Nat} {r : Except Error op.Answer}
    (hcloses : ∀ x, Closes c x (perform fuel op) (performWithout x fuel op))
    (hrun : s.run fuel op = some (r, t)) :
    Attentive c (fun x => asked x ∨ Enrolls fuel op s x) t := by
  have hclosed := fun x => hcloses x s h.consistent r t hrun
  have hwidens : s.Widens t := (hclosed (0, "")).2.1
  refine ⟨(hclosed (0, "")).1, ?_, ?_⟩
  · intro x hx
    rcases hwidens.heard hx with hold | hcovered
    · exact (h.heard hold).widen hwidens
    · exact hcovered
  · rintro x (hold | henrolls)
    · exact (h.asked hold).widen hwidens
    · -- without the registration there is no answer
      rcases (hclosed x).2.2.2 with hcopy | hcovered
      · exact absurd (henrolls.symm.trans hcopy) (by simp)
      · exact hcovered

/-- **Somebody who is no field stops watching.** -/
theorem Attentive.unwatch (h : Attentive c asked s) {name : String} (hname : ¬ c.Addresses name) :
    Attentive c asked { s with watches := s.watches.unwatch name } := by
  have hs := h.consistent
  have hlists : ∀ {address watcher}, (s.watches.unwatch name).Lists address watcher ↔
      name ≠ watcher ∧ s.watches.Lists address watcher := by
    intro address watcher
    rw [(hs.inverse.unwatch name).lists_iff, hs.inverse.lists_iff, WatchGraph.follows_unwatch]
  have hkeep : ∀ {x}, s.Covered x →
      ({ s with watches := s.watches.unwatch name } : Session).Covered x := by
    rintro x ⟨m, hm, hall⟩
    refine ⟨m, hm, fun spec hspec reference href => hlists.2 ⟨?_, hall spec hspec reference href⟩⟩
    rintro rfl
    exact hname ⟨(m.kind.name, x.2), spec, m.id, (hs.catalog_field? hm).trans hspec, rfl⟩
  refine ⟨⟨hs.catalog, hs.live, hs.keyed, hs.kind, hs.inverse.unwatch name⟩, ?_,
    fun hx => hkeep (h.asked hx)⟩
  rintro x ⟨m, spec, watcher, hpublishes, hwatched⟩
  exact hkeep (h.heard ⟨m, spec, watcher,
    ⟨hpublishes.published, hpublishes.member, hpublishes.field⟩, (hlists.1 hwatched).2⟩)

/-- **Whatever is recorded, the session is attentive.** -/
theorem Recorded.attentive (hlawful : c.Lawful) (halone : c.ComputesAlone)
    (hprepares : c.PreparesAlone) (hidentifies : c.IdentifiesByStatics)
    (hs : Recorded c (fun op => op.KeepsFields c ∧ op.FollowsNames) s asked) :
    Attentive c asked s := by
  induction hs with
  | new config now => exact attentive_new c config now
  | edit _ houtline hwatches ih => exact ih.edit houtline hwatches
  | @run s t asked fuel op r _ hrun hop ih =>
    by_cases hunregister : ∃ watcher, op = .unregister watcher
    · obtain ⟨watcher, rfl⟩ := hunregister
      cases fuel with
      | zero => simp [Session.run, perform] at hrun
      | succ fuel =>
        cases hrun
        obtain ⟨hs, hheard, hasked⟩ := ih.unwatch hop.1
        -- nothing is registered while watches are taken away
        refine ⟨hs, hheard, fun hx => hasked (hx.resolve_right ?_)⟩
        intro henrolls
        cases henrolls
    · exact ih.run (closes_operation hlawful halone hprepares hidentifies
        (fun watcher heq => hunregister ⟨watcher, heq⟩) hop.2 · fuel) hrun

/-! ## §7. What follows for registrations. -/

/-- A field of a published instance that somebody watches, or that was registered
once, watches everything that it refers to, be it there or not; and to register
it again changes nothing. -/
def Connected (s : Session) (asked : Node → Prop) : Prop :=
  ∀ ⦃address n i field spec⦄, s.published.get? address = some n → s.instance? n = some i →
    i.kind.info.field? field = some spec →
    s.watches.hasWatchers (i.fieldAddress field) = true ∨ asked (n, field) →
    (∀ reference ∈ spec.refs,
      i.fieldAddress field ∈ s.watches.watcherNames (i.member.targetAddress reference))
    ∧ ∀ fuel, s.run (fuel + 1) (.register n field) = some (.ok (), s)

/-- A reference that is listed already is followed without more. -/
theorem runOn_followReference_of_lists (hlawful : c.Lawful) (hs : s.Consistent c) {n : Nat}
    {m : Member} {field reference : String} {spec : FieldSpec}
    (hm : s.outline.member? n = some m) (hspec : m.kind.info.field? field = some spec)
    (href : reference ∈ spec.refs)
    (hlists : s.watches.Lists (m.targetAddress reference) (m.address field)) (call : Performer) :
    (followReference call n field reference).runOn s = some (.ok (), s) := by
  obtain ⟨i, hi, rfl⟩ := instance_of_member? hm
  rw [followReference, runOn_bind_ok (runOn_targetOf_of_member (x := (n, field))
    (hs.catalog ▸ hlawful) hs.live hm (hs.catalog ▸ hs.kind hm) hspec href), runOn_follow hi]
  have hempty : (s.watches.callbacks (i.member.targetAddress reference)).isEmpty = false := by
    refine Bool.eq_false_iff.2 fun hempty => ?_
    exact WatchGraph.isEmpty_callbacks_iff.1 hempty _ hlists
  have hsame : s.watching (i.member.targetAddress reference) (i.fieldAddress field)
      (.recompute n field) = s := watching_eq_self hs.inverse hlists
  simp only [hempty, Bool.false_eq_true, if_false]
  rw [hsame, runOn_pure]

/-- Registering a field that is covered changes nothing. -/
theorem runOn_register_of_covered (hlawful : c.Lawful) (hs : s.Consistent c) {n : Nat}
    {i : Instance} {field : String} {spec : FieldSpec} (hi : s.instance? n = some i)
    (hspec : i.kind.info.field? field = some spec) (hcovered : s.Covered (n, field))
    (call : Performer) : (register call n field).runOn s = some (.ok (), s) := by
  have hm : s.outline.member? n = some i.member := member?_of_instance hi
  obtain ⟨m, hm', hall⟩ := hcovered
  obtain rfl := Option.some.inj (hm.symm.trans hm')
  have hloop : ∀ refs : List String, (∀ reference ∈ refs, reference ∈ spec.refs) →
      (refs.forM (followReference call n field)).runOn s = some (.ok (), s) := by
    intro refs
    induction refs with
    | nil => exact fun _ => rfl
    | cons reference refs ih =>
      intro hrefs
      have href := hrefs reference List.mem_cons_self
      show (followReference call n field reference >>= fun _ =>
        refs.forM (followReference call n field)).runOn s = _
      rw [runOn_bind_ok (runOn_followReference_of_lists hlawful hs hm hspec href
        (hall spec hspec reference href) call)]
      exact ih fun r hr => hrefs r (List.mem_cons_of_mem _ hr)
  rw [register, runOn_bind_ok (runOn_declared hi hspec)]
  split
  · rfl
  · rw [runOn_bind_ok (runOn_requireLive hi hs.live)]
    exact hloop spec.refs fun _ href => href

/-- **The watch graph is closed between operations.**  Over a schema that was
accepted, with logic that asks nothing, a field that is watched or was registered
watches all its references, as long as nobody stops the watches of a field and
nobody follows a field under a name with the separator of addresses. -/
theorem connected_of_recorded {file : Source.File} {schema : Schema} (hfile : file.Accepted schema)
    (hc : c.Over schema) (halone : c.ComputesAlone) (hprepares : c.PreparesAlone)
    (hidentifies : c.IdentifiesByStatics)
    (hs : Recorded c (fun op => op.KeepsFields c ∧ op.FollowsNames) s asked) :
    s.Connected asked := by
  have hlawful := hfile.lawful hc
  have hattentive := hs.attentive hlawful halone hprepares hidentifies
  intro address n i field spec hn hi hspec hwhy
  have hm : s.outline.member? n = some i.member := member?_of_instance hi
  -- whatever is heard or was asked for is covered
  have hcovered : s.Covered (n, field) := by
    rcases hwhy with hwatched | hasked
    · have hempty : ¬ (s.watches.callbacks (i.fieldAddress field)).isEmpty = true := by
        simpa [WatchGraph.hasWatchers] using hwatched
      rw [WatchGraph.isEmpty_callbacks_iff] at hempty
      push Not at hempty
      obtain ⟨watcher, hlists⟩ := hempty
      exact hattentive.heard ⟨i.member, spec, watcher, ⟨⟨address, hn⟩, hm, hspec⟩, hlists⟩
    · exact hattentive.asked hasked
  refine ⟨?_, fun fuel =>
    runOn_register_of_covered hlawful hattentive.consistent hi hspec hcovered (perform fuel)⟩
  obtain ⟨m, hm', hall⟩ := hcovered
  obtain rfl := Option.some.inj (hm.symm.trans hm')
  intro reference href
  have hlists := hall spec hspec reference href
  exact Table.contains_iff_mem_keys.1 (WatchGraph.lists_iff_callbacks.1 hlists)

section Sample

open LazyFields.Sample

/-- The field `f` of the sample, and the field `g` that it refers to, are
registered while nothing of the kind `x` is there. -/
theorem connected_asksF : ∃ asked, Recorded Sample.catalog
      (fun op => op.KeepsFields Sample.catalog ∧ op.FollowsNames) asksF asked
    ∧ asked (0, "f") ∧ asksF.Connected asked
    ∧ asksF.watches.watcherNames "r\x00\x00g" = ["r\x00\x00f"]
    ∧ asksF.watches.watcherNames "x\x00\x00s" = ["r\x00\x00g"] := by
  obtain ⟨_, hr⟩ := run_after start (.create "r" ∅) (by decide +kernel)
  obtain ⟨_, hf⟩ := run_after hasR (.resolve 0 "f") (by decide +kernel)
  have hstart : Recorded Sample.catalog (fun op => op.KeepsFields Sample.catalog ∧ op.FollowsNames)
      start _ := .new _ 0
  have hrecorded := (hstart.run hr ⟨trivial, trivial⟩).run hf ⟨trivial, trivial⟩
  refine ⟨_, hrecorded, .inr ?_, ?_, by decide +kernel, by decide +kernel⟩
  · exact Option.isNone_iff_eq_none.1 (by decide +kernel)
  · exact connected_of_recorded accepted catalog_over computesPurely.1 preparesAlone
      identifiesByStatics hrecorded

/-- Instances of `r` with an empty id and with one that starts with the separator;
the first one follows a field of its own that does not exist, under the name that
the field `g` of the second one has in the watch graph. -/
def separated : Session :=
  after (after hasR (.create "r" (Table.ofList [(idArgument, .string "\x00x")])))
    (.watchCompute 0 "x\x00g" 0 "f")

/-- **A field that does not exist may have the name of one that does.**  The field
`g` of the second instance is watched then, and was never registered. -/
theorem separator_disconnects : ¬ ∀ {file : Source.File} {schema : Schema} {c : Catalog}
    {s : Session} {asked : Node → Prop}, file.Accepted schema → c.Over schema →
    c.ComputesAlone → c.PreparesAlone → c.IdentifiesByStatics →
    Recorded c (fun op => op.KeepsFields c) s asked → s.Connected asked := by
  intro h
  let named : Operation := .create "r" (Table.ofList [(idArgument, .string "\x00x")])
  -- with its separator this is the address of `g` in the instance named above
  let follows : Operation := .watchCompute 0 "x\x00g" 0 "f"
  obtain ⟨_, hr⟩ := run_after start (.create "r" ∅) (by decide +kernel)
  obtain ⟨_, hnamed⟩ := run_after hasR named (by decide +kernel)
  obtain ⟨_, hfollows⟩ := run_after (after hasR named) follows (by decide +kernel)
  have hstart : Recorded Sample.catalog (fun op => op.KeepsFields Sample.catalog) start _ :=
    .new _ 0
  have hrecorded := ((hstart.run hr trivial).run hnamed trivial).run hfollows trivial
  have hconnected : separated.Connected _ := h accepted catalog_over computesPurely.1 preparesAlone
    identifiesByStatics hrecorded
  have hthere : (separated.instance? 1).any (fun i => (i.kind.info.field? "g").any fun spec =>
      spec.refs = ["x.s"] && separated.watches.hasWatchers (i.fieldAddress "g")
        && !(separated.watches.watcherNames (i.member.targetAddress "x.s")).contains
          (i.fieldAddress "g")) = true := by decide +kernel
  have hpublished : separated.published.get? "r\x00\x00x" = some 1 := by decide +kernel
  obtain ⟨i, hi, hthere⟩ := Option.any_eq_true _ _ |>.1 hthere
  obtain ⟨spec, hspec, hthere⟩ := Option.any_eq_true _ _ |>.1 hthere
  simp only [Bool.and_eq_true, decide_eq_true_eq, Bool.not_eq_true', List.contains_eq_mem,
    decide_eq_false_iff_not] at hthere
  obtain ⟨⟨hrefs, hwatched⟩, hnot⟩ := hthere
  exact hnot ((hconnected hpublished hi hspec (.inl hwatched)).1 "x.s" (by simp [hrefs]))

end Sample

end Session

end LazyFields
