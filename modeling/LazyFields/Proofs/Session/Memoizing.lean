/-
  LazyFields.Proofs.Session.Memoizing
  ────────────────────────────────
  **EVERY OPERATION ON A FIELD MEMOIZES.**

  `Performer.Memoizes` has one law for each operation that others need, and
  `memoizing_perform` proves all of them together, by induction on how deep
  operations may nest.

    · a computation claims its field.  While the claim is held nobody else comes
      to it (`Holding.kept`), so its logic is called by the one who holds the claim,
      and only if the field was open before (`Holding.stored`)
    · a reader calls logic on the spot only if the field refers to nothing.  Then
      its watchers run, so there may be none unless follow-ups are allowed; this
      is why a field that is watched must not stay open (`View.Overdue`)
    · whoever is the first to watch a field has it computed at once, so that
      watching makes no field overdue (`Memoizes.of_watching`)
    · follow-ups compute again only what refers to something, since only such
      fields follow others (`Orderly.fits`)
-/
import LazyFields.Proofs.Session.Calls

namespace LazyFields

open LazyFields.Action (Memoizing Returns)

namespace Session

open LazyFields.Action

variable {s t u : Session} {x y : Node} {m : Member} {spec : FieldSpec} {cascades : Prop}
  {o : Outline} {n : Nat} {field : String} {i : Instance}

/-! ## §1. What is asked of operations. -/

/-- A computation of a node from one session to another one, with its answer. -/
structure Tried (cascades : Prop) (o : Outline) (x : Node) (s : Session) (a : Except Error Unit)
    (t : Session) : Prop where
  /-- A field that refers to nothing is settled, unless it is being computed. -/
  bare : o.Bare x → ¬ t.view.Open x ∧ t.view.watches = s.view.watches
    ∧ (s.view.Busy x → a = .error .notReady)
  /-- A field that is not ready is not settled. -/
  ready : ∀ {m spec}, o.Declares x m spec → (cascades → spec.refs = []) →
    a = .error .notReady → ∀ r, ¬ t.view.Settled x r

/-! ### Computations that change nothing. -/

/-- A field with an entry is not being computed. -/
theorem not_busy_of_stored {e : Entry} (h : s.view.slots x = some (.stored e)) :
    ¬ s.view.Busy x := by
  rintro ⟨previous, hslot⟩
  cases hslot.symm.trans h

/-- There is nothing to try at a field that is not declared. -/
theorem Tried.of_undeclared {a : Except Error Unit} (h : ¬ o.Has x) : Tried cascades o x s a s where
  bare := fun ⟨m, spec, hx, _⟩ => absurd ⟨m, spec, hx⟩ h
  ready hx := absurd ⟨_, _, hx⟩ h

/-- A static field has nothing to compute. -/
theorem Tried.of_static (hx : o.Declares x m spec) (hstatic : spec.isStatic = true) :
    Tried cascades o x s (.ok ()) s where
  bare hbare := absurd (hx.bare_iff.1 hbare).1 (by simp [hstatic])
  ready _ _ ha := by cases ha

/-- A field that is being computed is not ready, and is not called again. -/
theorem Tried.of_busy (h : s.view.Busy x) : Tried cascades o x s (.error .notReady) s where
  bare _ := ⟨fun hopen => hopen.1 h, rfl, fun _ => rfl⟩
  ready _ _ _ _ hsettled := by
    obtain ⟨e, he, -⟩ := hsettled
    exact not_busy_of_stored he h

/-- A finished field is not called again. -/
theorem Tried.of_finished (h : s.view.Finished x) : Tried cascades o x s (.ok ()) s where
  bare _ := by
    obtain ⟨e, he, -⟩ := id h
    exact ⟨fun hopen => hopen.2 h, rfl, fun hbusy => absurd hbusy (not_busy_of_stored he)⟩
  ready _ _ ha := by cases ha

/-! ### Computations that were tried. -/

/-- After a computation the field is not overdue. -/
theorem Tried.not_overdue {a : Except Error Unit} (h : Tried cascades o x s a t)
    (ht : t.Orderly o) : ¬ t.view.Overdue x :=
  fun hover => (h.bare (ht.outline ▸ hover.bare)).1 hover.unsettled

/-- If a field without a result is computed for a reader, nobody watches it, unless it was
overdue. -/
theorem Tried.unwatched {a : Except Error Unit} (h : Tried cascades o x s a t) (hs : s.Orderly o)
    (hx : o.Declares x m spec) (hbare : o.Bare x) (hresult : s.view.result? x = none)
    (hover : ¬ s.view.Overdue x) (ha : a ≠ .error .notReady) :
    ¬ t.view.Watched (m.address x.2) := by
  obtain ⟨-, hwatches, hbusy⟩ := h.bare hbare
  rintro ⟨name, f, hf⟩
  refine hover ⟨hs.outline ▸ hbare, ⟨fun hb => ha (hbusy hb), fun hfinished => ?_⟩,
    m, hs.outline ▸ hx.member, name, f, ?_⟩
  · obtain ⟨r, hr⟩ := hfinished.result?
    cases hresult.symm.trans hr
  · exact (View.callbacks_congr hwatches _).symm ▸ hf

/-! ### Answers of readers. -/

/-- The answer of an operation that reads a node is what is settled there. -/
def Read (cascades : Prop) (o : Outline) (x : Node) (a : Outcome) (t : Session) : Prop :=
  ∀ {m spec r}, o.Declares x m spec → (cascades → spec.refs = []) → t.view.Settled x r → a = r

end Session

/-- Operations on fields memoize, each where it may be performed. -/
structure Performer.Memoizes (cascades : Prop) (o : Outline) (call : Performer) : Prop where
  register : ∀ {s : Session} {x : Node}, s.Orderly o → o.Keeps x.1 →
    Memoizing cascades o (call (.register x.1 x.2)) s fun a _ => o.Has x → a = .ok ()
  compute : ∀ {s : Session} {x : Node}, s.Orderly o → o.Keeps x.1 →
    Memoizing cascades o (call (.compute x.1 x.2)) s (Session.Tried cascades o x s)
  recompute : ∀ {s : Session} {x : Node} {m spec}, cascades → s.Orderly o → o.Declares x m spec →
    spec.refs ≠ [] → Memoizing cascades o (call (.recompute x.1 x.2)) s fun _ _ => True
  /-- Where no follow-up is to run, none is waiting for the field. -/
  field : ∀ {s : Session} {x : Node}, s.Orderly o → o.Keeps x.1 →
    cascades ∨ ¬ s.view.Overdue x →
      Memoizing cascades o (call (.field x.1 x.2)) s (Session.Read cascades o x)
  resolve : ∀ {s : Session} {x : Node}, s.Orderly o → o.Keeps x.1 →
    Memoizing cascades o (call (.resolve x.1 x.2)) s (Session.Read cascades o x)
  trigger : ∀ {s : Session} {x : Node}, cascades → s.Orderly o → o.Keeps x.1 →
    Memoizing cascades o (call (.trigger x.1 x.2)) s fun _ _ => True
  fire : ∀ {s : Session} {address : String}, s.Orderly o → cascades ∨ ¬ s.view.Watched address →
    Memoizing cascades o (call (.fire address)) s fun a _ => ∃ count, a = .ok count

namespace Session

open LazyFields.Action

variable {s t u : Session} {x y : Node} {m : Member} {spec : FieldSpec} {cascades : Prop}
  {o : Outline} {n : Nat} {field : String} {i : Instance} {call : Performer}

/-- A note of anything but a call is no call. -/
theorem memoizing_note (hs : s.Orderly o) {e : Event}
    (he : ∀ kind id field values, e ≠ .computed kind id field values) :
    Memoizing cascades o (note e) s fun r _ => r = .ok () :=
  Returns.of_runOn (runOn_note e) ⟨hs.congr rfl rfl,
    .of_view rfl fun kind id field => callsOf_cons_of_ne (he kind id field), rfl⟩

/-- Every member of the outline is an instance. -/
theorem Orderly.instance? (hs : s.Orderly o) (hm : o.member? n = some m) :
    ∃ i, s.instance? n = some i ∧ i.member = m := instance_of_member? (hs.outline ▸ hm)

/-! ## §2. Watching. -/

section Watching

variable {address watcher : String} {f : FollowUp}

/-- A watch that fits keeps a session orderly. -/
theorem Orderly.watching (hs : s.Orderly o) (hf : f.Fits o address) :
    (s.watching address watcher f).Orderly o where
  outline := hs.outline
  fits hg := by
    rcases WatchGraph.get?_callbacks_of_watch hg with hold | ⟨-, rfl, rfl, rfl⟩
    · exact hs.fits hold
    · exact hf

/-- Only a field that nobody watched becomes overdue by a watch. -/
theorem overdue_of_watching (h : (s.watching address watcher f).view.Overdue x) :
    s.view.Overdue x ∨ ¬ s.view.Watched address
      ∧ ∃ m, s.view.outline.member? x.1 = some m ∧ m.address x.2 = address := by
  obtain ⟨hbare, hopen, m, hm, name, g, hg⟩ := h
  by_cases hold : s.view.Watched (m.address x.2)
  · exact .inl ⟨hbare, hopen, m, hm, hold⟩
  · rcases WatchGraph.get?_callbacks_of_watch hg with hg | ⟨-, rfl, -, -⟩
    · exact absurd ⟨name, g, hg⟩ hold
    · exact .inr ⟨hold, m, hm, rfl⟩

/-- Whoever is the first to watch a field has to see to it that the field does not
stay overdue. -/
theorem Memoizes.of_watching (h : (s.watching address watcher f).Memoizes cascades t)
    (hdone : ∀ {x m}, t.view.Overdue x → t.view.outline.member? x.1 = some m →
      m.address x.2 = address → s.view.Watched address) : s.Memoizes cascades t where
  outline := h.outline
  fate hx hcomputed honce := (h.fate hx hcomputed honce).of_start rfl rfl
  others hnone := h.others hnone
  overdue {x} hx := by
    refine (overdue_of_watching (h.overdue hx)).resolve_right ?_
    rintro ⟨hunwatched, m, hm, haddress⟩
    exact hunwatched (hdone hx (h.outline ▸ hm) haddress)

/-- It is enough that the field of the address is not overdue. -/
theorem Memoizes.of_watching_field (ho : o.Sound) (hx : o.Declares x m spec)
    (haddress : m.address x.2 = address)
    (h : (s.watching address watcher f).Memoizes cascades t) (ht : t.Orderly o)
    (hdone : ¬ t.view.Overdue x) : s.Memoizes cascades t := by
  refine h.of_watching ?_
  intro y m' hover hm' heq
  obtain ⟨m₂, spec₂, hy, -⟩ := id hover.bare
  rw [ht.outline] at hy hm'
  obtain rfl : m' = m₂ := Option.some.inj (hm'.symm.trans hy.member)
  obtain rfl : y = x := ho.address_inj hy hx (heq.trans haddress.symm)
  exact absurd hover hdone

/-- Nothing is registered for a field that is not watched. -/
theorem isEmpty_callbacks_iff :
    (s.watches.callbacks address).isEmpty = true ↔ ¬ s.view.Watched address :=
  (View.not_watched_iff (v := s.view)).symm

/-- The first watcher of a field did not watch it already. -/
theorem contains_callbacks_of_not_watched (h : ¬ s.view.Watched address) :
    (s.watches.callbacks address).contains watcher = false := by
  rw [Table.contains, Table.isEmpty_iff.1 (isEmpty_callbacks_iff.2 h)]
  rfl

end Watching

/-- The first one to watch a field registers and computes it, before anything else.  Then it
is not overdue. -/
theorem memoizing_attach (h : call.Memoizes cascades o) (hs : s.Orderly o)
    (hx : o.Declares x m spec) {k : Except Error Unit → Action Unit}
    {Q : Except Error Unit → Prop}
    (hk : ∀ a t, t.Orderly o → Memoizing cascades o (k a) t fun r _ => Q r) :
    Memoizing cascades o (do
      call (.register x.1 x.2)
      let a ← attempt (call (.compute x.1 x.2))
      k a) s fun r t => Q r ∧ ¬ t.view.Overdue x := by
  have hn : o.Keeps x.1 := ⟨m, hx.member, hx.kept⟩
  refine (h.register hs hn).bind ?_ ?_
  · intro _ t ht _ _
    refine .attempt_bind (h.compute ht hn) ?_
    intro a u hu _ htried
    refine Returns.mono (hk a u hu) ?_
    rintro r w ⟨hw, huw, hr⟩
    exact ⟨hw, huw, hr, fun hover => htried.not_overdue hu (huw.overdue hover)⟩
  · intro e t _ hok
    cases hok ⟨m, spec, hx⟩

/-- A field watches one of its references. -/
theorem memoizing_follow (ho : o.Sound) (h : call.Memoizes cascades o) (hs : s.Orderly o)
    (hx : o.Declares x m spec) {reference : String} (href : reference ∈ spec.refs) :
    Memoizing cascades o (follow call ⟨(o.target x.1 reference).map Prod.fst,
      (referent m.kind.name reference).2, m.targetAddress reference⟩ x.1 x.2) s
      fun a _ => a = .ok () := by
  obtain ⟨i, hi, rfl⟩ := hs.instance? hx.member
  let t := s.watching (i.member.targetAddress reference) (i.member.address x.2) (.recompute x.1 x.2)
  have ht : t.Orderly o := hs.watching ⟨i.member, spec, reference, hx, href, rfl⟩
  unfold follow
  refine Returns.next (runOn_getInstance hi) (.next runOn_get (.next (runOn_set t) ?_))
  by_cases hwatched : s.view.Watched (i.member.targetAddress reference)
  · have hold : (s.watches.callbacks (i.member.targetAddress reference)).isEmpty = false :=
      Bool.eq_false_iff.2 fun hempty => isEmpty_callbacks_iff.1 hempty hwatched
    simp only [hold, Bool.not_false, Bool.or_true, if_true]
    exact .of_runOn (runOn_pure _ _) ⟨ht, .of_watching (.refl _ t) fun _ _ _ => hwatched, rfl⟩
  · have hempty := isEmpty_callbacks_iff.2 hwatched
    have hnew : (s.watches.callbacks (i.member.targetAddress reference)).contains
        (i.fieldAddress x.2) = false := contains_callbacks_of_not_watched hwatched
    simp only [hempty, hnew, Bool.not_true, Bool.or_self, Bool.false_eq_true, if_false]
    cases htarget : o.target x.1 reference with
    | none =>
      -- nothing is there that could be overdue
      refine .of_runOn (runOn_pure _ _) ⟨ht, .of_watching (.refl _ t) ?_, rfl⟩
      rintro y m' ⟨⟨m₂, spec₂, hy, -⟩, -, -⟩ hm' haddress
      rw [ht.outline] at hy hm'
      obtain rfl : m' = m₂ := Option.some.inj (hm'.symm.trans hy.member)
      rw [(ho.target_iff hx href hy).2 haddress] at htarget
      cases htarget
    | some y =>
      obtain ⟨m', spec', hy, haddress, hname⟩ := ho.has_target hx href htarget
      simp only [Option.map_some]
      rw [hname]
      refine Returns.mono (memoizing_attach (Q := fun a => a = .ok ()) h ht hy fun _ _ hu =>
        .pure hu rfl) ?_
      rintro a u ⟨hu, htu, ha, hdone⟩
      exact ⟨hu, .of_watching_field ho hy haddress htu hu hdone, ha⟩

/-- A field watches everything that it refers to. -/
theorem memoizing_register (ho : o.Sound) (h : call.Memoizes cascades o) (hs : s.Orderly o)
    (hn : o.Keeps x.1) :
    Memoizing cascades o (register call x.1 x.2) s fun a _ => o.Has x → a = .ok () := by
  obtain ⟨m, hm, hkept⟩ := hn
  obtain ⟨i, hi, rfl⟩ := hs.instance? hm
  unfold register
  cases hfield : i.kind.info.field? x.2 with
  | none =>
    have hnot := Outline.not_has_of_undeclared hm hfield
    exact .stop hs (runOn_declared_of_none hi hfield) fun hx => absurd hx hnot
  | some spec =>
    have hx : o.Declares x i.member spec := ⟨hm, hkept, hfield⟩
    refine .next (runOn_declared hi hfield) ?_
    split
    · exact .pure hs fun _ => rfl
    · refine .next (runOn_requireLive hi (hs.live ho)) ?_
      refine (Memoizing.forM (I := fun refs _ => ∀ reference ∈ refs, reference ∈ spec.refs) ?_
        s hs fun _ h => h).mono fun a _ ha _ => ha.1
      intro reference refs t ht hrefs
      have href := hrefs reference List.mem_cons_self
      refine .next (by rw [runOn_targetOf (ht.outline ▸ ho) (ht.outline ▸ hx) href, ht.outline]) ?_
      refine (memoizing_follow ho h ht hx href).mono fun a _ ha => ⟨ha, ?_⟩
      exact fun r hr => hrefs r (List.mem_cons_of_mem _ hr)


/-! ## §3. Computing. -/

/-- What a claim comes to: somebody holds the field, or there is nothing to compute, or
it is granted, and what was stored before is kept for readers. -/
inductive Claims (s : Session) (x : Node) (i : Instance) (force : Bool) : Prop where
  | busy (h : s.view.Busy x) (hclaim : i.cache.claim x.2 force = (.busy, i.cache))
  | ready (h : s.view.Finished x) {e : Entry}
      (hclaim : i.cache.claim x.2 force = (.ready e, i.cache))
  | acquired {previous : Option Entry} (hprevious : previous.map Slot.stored = s.view.slots x)
      (hopen : force = false → s.view.Open x)
      (hclaim : i.cache.claim x.2 force
        = (.acquired, i.cache.setSlot x.2 (some (.computing previous))))

/-- A claim, forced or not, has one of three answers. -/
theorem claims (hi : s.instance? x.1 = some i) (force : Bool) : s.Claims x i force := by
  by_cases hbusy : s.view.Busy x
  · obtain ⟨previous, hslot⟩ := id hbusy
    have hcache : i.cache.slot? x.2 = some (.computing previous) :=
      (slots_of_instance hi x.2).symm.trans hslot
    exact .busy hbusy (by simp only [Cache.claim, hcache])
  · have hidle : ∀ previous, s.view.slots x ≠ some (.computing previous) :=
      fun previous hslot => hbusy ⟨previous, hslot⟩
    by_cases hforced : force = true ∨ ¬ s.view.Finished x
    · obtain ⟨previous, hprevious, hclaim⟩ := exists_claim hi hidle (hforced.imp_right
        fun hopen e he => Bool.eq_false_iff.2 fun hsettled => hopen ⟨e, he, hsettled⟩)
      refine .acquired hprevious (fun hnot => ⟨hbusy, ?_⟩) hclaim
      exact hforced.resolve_left (by simp [hnot])
    · obtain ⟨hnot, hfinished⟩ := not_or.1 hforced
      obtain rfl : force = false := Bool.eq_false_iff.2 hnot
      have hfinished := Classical.not_not.1 hfinished
      obtain ⟨e, hclaim⟩ := claim_of_finished hi hfinished
      exact .ready hfinished hclaim

/-- A claim that is given up leaves what was stored before. -/
theorem abandon_returns (hi : s.instance? x.1 = some i) (e : Error) :
    (abandon x.1 x.2 e).Returns s fun a t => a = .error e ∧ t.journal = s.journal
      ∧ t.view = s.view.put x ((s.view.slots x).bind Slot.release) := by
  refine .of_runOn (runOn_abandon hi e) ⟨rfl, rfl, ?_⟩
  rw [Cache.release, ← slots_of_instance hi]
  exact view_setSlot hi x.2 _

/-- Whatever is not a signal is stored. -/
theorem conclude_returns (hi : s.instance? x.1 = some i) {r : Outcome}
    (hr : r ≠ .error .notReady) :
    (conclude x.1 x.2 r).Returns s fun a t => a ≠ .error .notReady ∧ t.journal = s.journal
      ∧ t.view = s.view.put x (some (.stored (Entry.ofOutcome r s.now))) := by
  refine .of_runOn (runOn_conclude hi hr) ⟨?_, rfl, view_setSlot hi x.2 _⟩
  cases r with
  | ok w => simp [Except.map]
  | error e => simpa [Except.map] using hr

/-- **Logic is called once**, and what comes of it is stored. -/
theorem runLogic_returns (ho : o.Sound) (halone : o.catalog.ComputesAlone)
    (hready : o.catalog.ComputesReady) (hs : s.view.outline = o) (hx : o.Declares x m spec)
    (values : List Value) :
    (runLogic call x.1 spec x.2 values).Returns s fun a t => a ≠ .error .notReady
      ∧ ∃ r, r ≠ .error .notReady
        ∧ t.view = s.view.put x (some (.stored (Entry.ofOutcome r s.now)))
        ∧ (t.journal = s.journal ∨ t.journal = .computed m.kind.name m.id x.2 values :: s.journal
          ∧ r = m.outcome x spec values (callNumber m.kind.name x.2 t.journal)) := by
  obtain ⟨i, hi, rfl⟩ := instance_of_member? (hs ▸ hx.member)
  have hcalled : (runLogic call x.1 spec x.2 values).runOn s = _ :=
    runOn_runLogic hi (halone (ho.kind hx.member)) values call
  have hne := ho.outcome_ne_notReady hready hx values
    ((s.called i.member x.2 values).computeCalls i.kind.name x.2)
  intro a t hrun
  rw [hcalled] at hrun
  obtain ⟨ha, hjournal, hview⟩ :=
    conclude_returns ((instance?_called ..).trans hi) hne a t hrun
  rw [view_called, now_called] at hview
  refine ⟨ha, _, hne, hview, ?_⟩
  rw [hjournal]
  -- the journal has the call if there is logic to call
  unfold called
  split
  · exact .inr ⟨rfl, rfl⟩
  · exact .inl rfl

/-! ### Settling references. -/

/-- References are settled from left to right. -/
theorem memoizing_gather (ho : o.Sound) (h : call.Memoizes cascades o) (hx : o.Declares x m spec)
    {refs : List String} (hrefs : ∀ reference ∈ refs, reference ∈ spec.refs) (hs : s.Orderly o) :
    Memoizing cascades o (gather call x.1 refs) s fun a t =>
      ∃ g, a = .ok g ∧ (∀ e, g = .failed e → e ≠ .notReady)
        ∧ (refs = [] → t = s ∧ g = .values []) := by
  induction refs generalizing s with
  | nil => exact .pure hs ⟨_, rfl, (fun _ h => by cases h), fun _ => ⟨rfl, rfl⟩⟩
  | cons reference refs ih =>
    have href := hrefs reference List.mem_cons_self
    have hmore : ∀ {p : Prop}, reference :: refs = [] → p :=
      fun h => absurd h (List.cons_ne_nil _ _)
    have htarget := runOn_targetOf (hs.outline ▸ ho) (hs.outline ▸ hx) href
    unfold gather
    refine .next ((runOn_attempt _ s).trans (by rw [htarget, hs.outline]; rfl)) ?_
    cases hy : o.target x.1 reference with
    | none => exact .pure hs ⟨_, rfl, (fun _ h => by cases h), hmore⟩
    | some y =>
      obtain ⟨m', spec', hydecl, -, hname⟩ := ho.has_target hx href hy
      have hkeeps : o.Keeps y.1 := ⟨m', hydecl.member, hydecl.kept⟩
      simp only [Option.map_some, hname]
      -- a reference is computed first, so it is not overdue when it is read
      have hread : Memoizing cascades o (do
          call (.compute y.1 y.2)
          call (.field y.1 y.2)) s fun _ _ => True := by
        refine (h.compute hs hkeeps).bind ?_ fun _ _ _ _ => trivial
        intro _ t ht _ htried
        exact (h.field ht hkeeps (.inr (htried.not_overdue ht))).mono fun _ _ _ => trivial
      refine .attempt_bind hread fun r t ht _ _ => ?_
      cases r with
      | ok v =>
        refine (ih (fun r hr => hrefs r (List.mem_cons_of_mem _ hr)) ht).bind ?_ ?_
        · rintro g u hu - ⟨g', hg, hfailed, -⟩
          obtain rfl := Except.ok.inj hg
          cases g with
          | values vs => exact .pure hu ⟨_, rfl, (fun _ h => by cases h), hmore⟩
          | blocked e => exact .pure hu ⟨_, rfl, hfailed, hmore⟩
          | failed e => exact .pure hu ⟨_, rfl, hfailed, hmore⟩
        · rintro e u - ⟨g, hg, -⟩
          cases hg
      | error e =>
        cases e with
        | notReady => exact .pure ht ⟨_, rfl, (fun _ h => by cases h), hmore⟩
        | _ => exact .pure ht ⟨_, rfl, (fun _ h => by cases h; simp), hmore⟩

/-! ### While a field is claimed. -/

/-- The field was claimed on the first session, which made it the second one, and the
claim is still held at the third one. -/
structure Holding (cascades : Prop) (o : Outline) (x : Node) (m : Member) (spec : FieldSpec)
    (s claimed mid : Session) : Prop where
  start : s.Orderly o
  declares : o.Declares x m spec
  computed : spec.isStatic = false
  unsettled : (cascades → spec.refs = []) → s.view.Open x
  claim : ∃ previous : Option Entry, previous.map Slot.stored = s.view.slots x
    ∧ claimed.view = s.view.put x (some (.computing previous))
  journal : claimed.journal = s.journal
  memoizes : claimed.Memoizes cascades mid

namespace Holding

variable {claimed mid : Session} (h : Holding cascades o x m spec s claimed mid)

include h

/-- A claim keeps the outline. -/
theorem outline_claimed : claimed.view.outline = o := by
  obtain ⟨previous, -, hview⟩ := h.claim
  rw [hview]
  exact h.start.outline

/-- So does gathering after it. -/
theorem outline_mid : mid.view.outline = o := h.memoizes.outline.trans h.outline_claimed

/-- Nothing has become of the field meanwhile. -/
theorem kept (honce : cascades → spec.refs = []) :
    (∃ previous : Option Entry, previous.map Slot.stored = s.view.slots x
      ∧ mid.view.slots x = some (.computing previous)) ∧ mid.calls m x.2 = s.calls m x.2 := by
  obtain ⟨previous, hprevious, hview⟩ := h.claim
  have hbusy : claimed.view.slots x = some (.computing previous) := by
    rw [hview, View.put_slots_self]
  obtain ⟨hslot, hcalls⟩ := (h.memoizes.fate (h.outline_claimed ▸ h.declares) h.computed
    honce).kept_of_not_open fun hopen => hopen.1 ⟨previous, hbusy⟩
  refine ⟨⟨previous, hprevious, hslot.trans hbusy⟩, hcalls.trans ?_⟩
  rw [calls, h.journal, calls]

/-- **What is memoized while the field is claimed is memoized from before the claim**, if
the field itself comes to a good end. -/
theorem ended (ho : o.Sound) {slot : Option Slot} (hview : t.view = mid.view.put x slot)
    (hcalls : ∀ kind id field, ¬ (m.kind.name = kind ∧ m.id = id ∧ x.2 = field) →
      callsOf kind id field t.journal = callsOf kind id field mid.journal)
    (hfate : (cascades → spec.refs = []) → Fate s t x m spec)
    (hopen : o.Bare x → ¬ t.view.Open x) : s.Memoizes cascades t := by
  obtain ⟨previous, -, hclaim⟩ := h.claim
  have hs := h.start.outline
  have hsame : ∀ kind id field,
      callsOf kind id field claimed.journal = callsOf kind id field s.journal :=
    fun _ _ _ => by rw [h.journal]
  have hout : t.view.outline = s.view.outline := by
    rw [hview, View.put_outline, h.outline_mid, hs]
  refine ⟨hout, ?_, ?_, ?_⟩
  · intro y m' spec' hy hcomputed honce
    rw [hs] at hy
    by_cases hne : y = x
    · subst hne
      obtain ⟨rfl, rfl⟩ := hy.eq h.declares
      exact hfate honce
    · -- another field has another kind, id or name
      have hother : ¬ (m.kind.name = m'.kind.name ∧ m.id = m'.id ∧ x.2 = y.2) := by
        rintro ⟨hkind, hid, hfield⟩
        refine hne (Prod.ext ?_ hfield.symm)
        exact ho.member_inj hy.member h.declares.member hy.kept h.declares.kept hkind.symm hid.symm
      have hfate' := h.memoizes.fate (h.outline_claimed ▸ hy) hcomputed honce
      refine (hfate'.of_start ?_ (hsame _ _ _)).of_end ?_ (hcalls _ _ _ hother)
      · rw [hclaim, View.put_slots_ne _ hne]
      · rw [hview, View.put_slots_ne _ hne]
  · intro kind id field hnone
    rw [hs] at hnone
    have hother : ¬ (m.kind.name = kind ∧ m.id = id ∧ x.2 = field) :=
      fun heq => hnone x.1 m h.declares.member h.declares.kept heq.1 heq.2.1
    rw [hcalls kind id field hother, h.memoizes.others (h.outline_claimed ▸ hnone), h.journal]
  · intro y hy
    have hne : y ≠ x := by
      rintro rfl
      exact hopen (hout.trans hs ▸ hy.bare) hy.unsettled
    have hmid : mid.view.Overdue y := by
      refine hy.congr ?_ ?_ ?_
      · rw [hview]; rfl
      · rw [hview, View.put_slots_ne _ hne]
      · rw [hview]; rfl
    refine (h.memoizes.overdue hmid).congr ?_ ?_ ?_
    · rw [hs, h.outline_claimed]
    · rw [hclaim, View.put_slots_ne _ hne]
    · rw [hclaim]; rfl

/-- An outcome is stored, which is a failure or what logic made of values. -/
theorem stored (ho : o.Sound) {r : Outcome} (hr : r ≠ .error .notReady) {now : Int}
    (hview : t.view = mid.view.put x (some (.stored (Entry.ofOutcome r now))))
    (hjournal : t.journal = mid.journal ∨ ∃ values,
      t.journal = .computed m.kind.name m.id x.2 values :: mid.journal
        ∧ r = m.outcome x spec values (callNumber m.kind.name x.2 t.journal)) :
    s.Memoizes cascades t ∧ t.view.Settled x r := by
  have hsettled : t.view.Settled x r := hview ▸ View.settled_put mid.view x hr now
  refine ⟨h.ended ho hview ?_ ?_ fun _ => hsettled.not_open, hsettled⟩
  · intro kind id field hother
    rcases hjournal with hjournal | ⟨values, hjournal, -⟩
    · rw [hjournal]
    · rw [hjournal]
      refine callsOf_cons_of_ne fun values' heq => hother ?_
      cases heq
      exact ⟨rfl, rfl, rfl⟩
  · intro honce
    have hopen := h.unsettled honce
    have hmid := (h.kept honce).2
    rcases hjournal with hjournal | ⟨values, hjournal, rfl⟩
    · refine .failed hopen hsettled.finished (Eq.trans ?_ hmid)
      rw [calls, hjournal, calls]
    · refine .called hopen ?_ hsettled
      rw [← hmid, calls, hjournal]
      exact callsOf_cons_self

/-- The claim is given up, which leaves what was stored before. -/
theorem released (ho : o.Sound) (hrefs : spec.refs ≠ [])
    (hview : t.view = mid.view.put x ((mid.view.slots x).bind Slot.release))
    (hjournal : t.journal = mid.journal) : s.Memoizes cascades t
      ∧ ((cascades → spec.refs = []) → t.view.slots x = s.view.slots x) := by
  have hslot : (cascades → spec.refs = []) → t.view.slots x = s.view.slots x := by
    intro honce
    obtain ⟨⟨previous, hprevious, hmid⟩, -⟩ := h.kept honce
    rw [hview, View.put_slots_self, hmid, ← hprevious]
    rfl
  refine ⟨h.ended ho hview (fun _ _ _ _ => by rw [hjournal]) ?_ ?_, hslot⟩
  · intro honce
    refine .kept (hslot honce) (Eq.trans ?_ (h.kept honce).2)
    rw [calls, hjournal, calls]
  · exact fun hbare => absurd (h.declares.bare_iff.1 hbare).2 hrefs

/-- A computation that ends with an outcome has tried the field. -/
theorem tried_of_stored {a : Except Error Unit} {r : Outcome} {now : Int}
    (hstart : spec.refs = [] → mid = claimed) (ha : a ≠ .error .notReady)
    (hview : t.view = mid.view.put x (some (.stored (Entry.ofOutcome r now))))
    (hsettled : t.view.Settled x r) : Tried cascades o x s a t where
  bare hbare := by
    have hrefs := (h.declares.bare_iff.1 hbare).2
    obtain ⟨previous, -, hclaim⟩ := h.claim
    refine ⟨hsettled.not_open, ?_, fun hbusy => absurd hbusy (h.unsettled fun _ => hrefs).1⟩
    rw [hview, View.put_watches, hstart hrefs, hclaim]
    rfl
  ready _ _ hnot := absurd hnot ha

/-- So has one that gives its claim up, since it waits for a reference. -/
theorem tried_of_released {a : Except Error Unit} (hrefs : spec.refs ≠ [])
    (hslot : (cascades → spec.refs = []) → t.view.slots x = s.view.slots x) :
    Tried cascades o x s a t where
  bare hbare := absurd (h.declares.bare_iff.1 hbare).2 hrefs
  ready hx honce _ r hsettled := by
    obtain ⟨-, rfl⟩ := hx.eq h.declares
    exact (hsettled.congr (hslot honce).symm).not_open (h.unsettled honce)

end Holding

/-! ### Settling a field. -/

/-- A computation that was granted its claim. -/
theorem memoizing_claimed (ho : o.Sound) (halone : o.catalog.ComputesAlone)
    (hready : o.catalog.ComputesReady) (h : call.Memoizes cascades o) {claimed : Session}
    (hheld : Holding cascades o x m spec s claimed claimed) :
    Returns (do
      match ← gather call x.1 spec.refs with
      | .values vs => runLogic call x.1 spec x.2 vs
      | .blocked e => abandon x.1 x.2 e
      | .failed e => conclude x.1 x.2 (.error e)) claimed fun a t =>
        t.Orderly o ∧ s.Memoizes cascades t ∧ Tried cascades o x s a t := by
  have hs := hheld.start
  have hx := hheld.declares
  obtain ⟨previous, -, hclaim⟩ := hheld.claim
  have hclaimed : claimed.Orderly o := hs.put hclaim
  refine Returns.bind (memoizing_gather ho h hx (fun _ href => href) hclaimed) ?_ ?_
  · rintro g mid ⟨hmid, hmemo, _, hg, hfailed, hnone⟩
    cases hg
    have hheld : Holding cascades o x m spec s claimed mid := { hheld with memoizes := hmemo }
    obtain ⟨i, hi, rfl⟩ := hmid.instance? hx.member
    have hstart : spec.refs = [] → mid = claimed := fun hrefs => (hnone hrefs).1
    -- the claim ends with a new entry, or with the slot that it found
    cases g with
    | values vs =>
      refine (runLogic_returns ho halone hready hmid.outline hx vs).mono ?_
      rintro a u ⟨ha, r, hr, hview, hjournal⟩
      obtain ⟨hsu, hsettled⟩ := hheld.stored ho hr hview (hjournal.imp_right fun hcalled =>
        ⟨vs, hcalled⟩)
      exact ⟨hmid.put hview, hsu, hheld.tried_of_stored hstart ha hview hsettled⟩
    | failed e =>
      have hne : (Except.error e : Outcome) ≠ .error .notReady := by
        simpa using hfailed e rfl
      refine (conclude_returns hi hne).mono ?_
      rintro a u ⟨ha, hjournal, hview⟩
      obtain ⟨hsu, hsettled⟩ := hheld.stored ho hne hview (.inl hjournal)
      exact ⟨hmid.put hview, hsu, hheld.tried_of_stored hstart ha hview hsettled⟩
    | blocked e =>
      have hrefs : spec.refs ≠ [] := fun hrefs => by cases (hnone hrefs).2
      refine (abandon_returns hi e).mono ?_
      rintro a u ⟨-, hjournal, hview⟩
      obtain ⟨hsu, hslot⟩ := hheld.released ho hrefs hview hjournal
      exact ⟨hmid.put hview, hsu, hheld.tried_of_released hrefs hslot⟩
  · rintro e t ⟨-, -, g, hg, -⟩
    cases hg

/-- **Settling a field calls its logic once, if at all**, and not if it is settled.  A forced
computation is one of a cascade. -/
theorem memoizing_computeField (ho : o.Sound) (halone : o.catalog.ComputesAlone)
    (hready : o.catalog.ComputesReady) (h : call.Memoizes cascades o) (hs : s.Orderly o)
    (hn : o.Keeps x.1) (force : Bool) (hforce : force = true → cascades ∧ ¬ o.Bare x) :
    Memoizing cascades o (computeField call x.1 x.2 force) s (Tried cascades o x s) := by
  obtain ⟨m, hm, hkept⟩ := hn
  obtain ⟨i, hi, rfl⟩ := hs.instance? hm
  unfold computeField
  cases hfield : i.kind.info.field? x.2 with
  | none =>
    exact .stop hs (runOn_declared_of_none hi hfield)
      (.of_undeclared (Outline.not_has_of_undeclared hm hfield))
  | some spec =>
    have hx : o.Declares x i.member spec := ⟨hm, hkept, hfield⟩
    refine .next (runOn_declared hi hfield) ?_
    cases hcomputed : spec.isStatic with
    | true =>
      simp only [if_true]
      exact .pure hs (.of_static hx hcomputed)
    | false =>
      simp only [Bool.false_eq_true, if_false]
      cases claims hi force with
      | busy hbusy hclaim =>
        have hrun : (onCache x.1 (·.claim x.2 force)).runOn s = some (.ok .busy, s) := by
          rw [runOn_onCache hi, hclaim, setCache_self hi]
        exact .next hrun (.throw hs (.of_busy hbusy))
      | @ready hfinished e hclaim =>
        have hrun : (onCache x.1 (·.claim x.2 force)).runOn s = some (.ok (.ready e), s) := by
          rw [runOn_onCache hi, hclaim, setCache_self hi]
        exact .next hrun (.pure hs (.of_finished hfinished))
      | @acquired previous hprevious hopen hclaim =>
        refine Returns.next (runOn_onCache hi _) ?_
        simp only [hclaim]
        refine memoizing_claimed ho halone hready h ⟨hs, hx, hcomputed, ?_,
          ⟨previous, hprevious, view_setSlot hi x.2 _⟩, rfl, .refl _ _⟩
        -- a forced computation is of a field that is not memoized
        intro honce
        refine hopen (Bool.eq_false_iff.2 fun hforced => ?_)
        obtain ⟨hcascades, hbare⟩ := hforce hforced
        exact hbare ⟨i.member, spec, hx, hcomputed, honce hcascades⟩

/-! ## §4. Reading. -/

/-- When a field was computed for a reader, its slot is read, and its watchers run. -/
theorem memoizing_reread (ho : o.Sound) (h : call.Memoizes cascades o) (hs : s.Orderly o)
    (hx : o.Declares x m spec) (hcomputed : spec.isStatic = false) (hsettled : ¬ s.view.Open x)
    {address : String} (hfree : cascades ∨ ¬ s.view.Watched address) :
    Memoizing cascades o (do
      match ← cached? x.1 x.2 with
      | none => throw .notReady
      | some r => do
          if (← get).live then do
            let _ ← call (.fire address)
            ofResult r
          else ofResult r : Action Value) s (Read cascades o x) := by
  obtain ⟨i, hi, rfl⟩ := hs.instance? hx.member
  have hresult := result?_of_instance hi x.2
  refine .next (runOn_cached? hi x.2) ?_
  cases hr : i.cache.result? x.2 with
  | none =>
    refine .throw hs ?_
    intro m' spec' r hx' _ hset
    simp [hr, hset.result?] at hresult
  | some r =>
    refine .next runOn_get ?_
    simp only [hs.live ho, if_true]
    refine (h.fire hs hfree).bind ?_ ?_
    · intro _ t ht hmemo _
      refine .of_runOn ht (runOn_ofResult r t) ?_
      intro m' spec' r' hx' honce hset
      obtain ⟨-, rfl⟩ := hx'.eq hx
      -- the callbacks in between leave alone what is settled
      obtain ⟨hslot, -⟩ := (hmemo.fate (hs.outline ▸ hx) hcomputed honce).kept_of_not_open hsettled
      exact Option.some.inj (hr.symm.trans (hresult.symm.trans (hset.congr hslot.symm).result?))
    · rintro e t - ⟨count, ha⟩
      cases ha

/-- **Reading a field** answers what is settled.  If its callbacks may not run, nobody
watches a field that is computed on the spot. -/
theorem memoizing_readField (ho : o.Sound) (h : call.Memoizes cascades o) (hs : s.Orderly o)
    (hn : o.Keeps x.1) (hfree : cascades ∨ ¬ s.view.Overdue x) :
    Memoizing cascades o (readField call x.1 x.2) s (Read cascades o x) := by
  obtain ⟨m, hm, hkept⟩ := hn
  obtain ⟨i, hi, rfl⟩ := hs.instance? hm
  unfold readField
  cases hfield : i.kind.info.field? x.2 with
  | none =>
    have hnot := Outline.not_has_of_undeclared hm hfield
    exact .stop hs (runOn_declared_of_none hi hfield) fun hx => absurd ⟨_, _, hx⟩ hnot
  | some spec =>
    have hx : o.Declares x i.member spec := ⟨hm, hkept, hfield⟩
    have hresult := result?_of_instance hi x.2
    refine .next (runOn_declared hi hfield) (.next (runOn_cached? hi x.2) ?_)
    cases hr : i.cache.result? x.2 with
    | some r =>
      refine .of_runOn hs (runOn_ofResult r s) ?_
      intro _ _ r' _ _ hset
      exact Option.some.inj (hr.symm.trans (hresult.symm.trans hset.result?))
    | none =>
      have hunsettled : ∀ r, ¬ s.view.Settled x r := fun r hset => by
        simp [hr, hset.result?] at hresult
      refine .next (runOn_getInstance hi) ?_
      cases hcomputed : spec.isStatic with
      | true =>
        simp only [if_true]
        exact .throw hs fun _ _ hset => absurd hset (hunsettled _)
      | false =>
        simp only [Bool.false_eq_true, if_false]
        split
        · exact .throw hs fun _ _ hset => absurd hset (hunsettled _)
        · next hrefs =>
          have hnil : spec.refs = [] := by simpa using hrefs
          have hbare : o.Bare x := ⟨i.member, spec, hx, hcomputed, hnil⟩
          -- a field without references is computed for its reader, who then sees the entry
          refine .attempt_bind (h.compute hs ⟨_, hm, hkept⟩) ?_
          intro a t ht hmemo htried
          have hsettled := (htried.bare hbare).1
          have hunwatched : a ≠ .error .notReady →
              cascades ∨ ¬ t.view.Watched (i.member.address x.2) := fun ha =>
            hfree.imp_right fun hover => htried.unwatched hs hx hbare (hresult.trans hr) hover ha
          cases a with
          | ok _ => exact memoizing_reread ho h ht hx hcomputed hsettled (hunwatched (by simp))
          | error e =>
            cases e with
            | notReady =>
              exact .throw ht fun hx' honce hset => absurd hset (htried.ready hx' honce rfl _)
            | _ => exact memoizing_reread ho h ht hx hcomputed hsettled (hunwatched (by simp))

/-- Resolving a field answers what is settled then. -/
theorem memoizing_resolveField (h : call.Memoizes cascades o) (hs : s.Orderly o)
    (hn : o.Keeps x.1) :
    Memoizing cascades o (resolveField call x.1 x.2) s (Read cascades o x) := by
  unfold resolveField
  refine (h.register hs hn).bind ?_ ?_
  · intro _ t ht _ _
    refine .attempt_bind (h.compute ht hn) ?_
    intro a u hu _ htried
    have hfield : Memoizing cascades o (call (.field x.1 x.2)) u (Read cascades o x) :=
      h.field hu hn (.inr (htried.not_overdue hu))
    cases a with
    | ok _ => exact hfield
    | error e =>
      cases e with
      | notReady =>
        exact .throw hu fun hx honce hset => absurd hset (htried.ready hx honce rfl _)
      | _ => exact hfield
  · intro e t _ hok m spec r hx
    cases hok ⟨m, spec, hx⟩

/-- What is answered for a field that was settled before is what was settled. -/
def Recalls (cascades : Prop) (o : Outline) (s : Session) (field : String) (n : Nat) (a : Outcome) :
    Prop :=
  ∀ m spec r, o.Declares (n, field) m spec → spec.isStatic = false →
    (cascades → spec.refs = []) → s.view.Settled (n, field) r → a = r

/-- What is recalled in the end is what was settled at the start. -/
theorem Memoizes.recalls (h : s.Memoizes cascades t) (hs : s.Orderly o) {a : Outcome}
    (ha : Recalls cascades o t field n a) : Recalls cascades o s field n a := by
  intro m spec r hx hcomputed honce hset
  have hfate := h.fate (hs.outline ▸ hx) hcomputed honce
  exact ha m spec r hx hcomputed honce (hset.congr (hfate.kept_of_not_open hset.not_open).1)

/-- Trying again memoizes as well. -/
theorem memoizing_retryField (h : call.Memoizes cascades o) (hn : o.Keeps x.1) (retries : Nat) :
    ∀ s : Session, s.Orderly o →
      Memoizing cascades o (retryField call x.1 x.2 retries) s (Read cascades o x) := by
  induction retries with
  | zero => exact fun s hs => h.resolve hs hn
  | succ retries ih =>
    intro s hs
    unfold retryField
    refine .attempt_bind (h.resolve hs hn) ?_
    intro a t ht _ hread
    cases a with
    | ok v => exact .of_runOn ht (runOn_ofResult _ t) hread
    | error e =>
      cases e with
      | notReady => exact ih t ht
      | _ => exact .of_runOn ht (runOn_ofResult _ t) hread

/-! ## §5. Follow-ups. -/

/-- A watcher gets its report. -/
theorem memoizing_report (hs : s.Orderly o) (hm : o.member? n = some m) (watcher : String) :
    Memoizing cascades o (runFollowUp call (.report n field watcher)) s fun a _ => a = .ok () := by
  obtain ⟨i, hi, -⟩ := hs.instance? hm
  unfold runFollowUp
  refine .next (runOn_getInstance hi) ?_
  split
  · exact .pure hs rfl
  · exact memoizing_note hs (by simp)

/-- What watches a field is run. -/
theorem memoizing_runFollowUp (h : call.Memoizes cascades o) (hc : cascades) (hs : s.Orderly o)
    {f : FollowUp} {address : String} (hf : f.Fits o address) :
    Memoizing cascades o (runFollowUp call f) s fun a _ => a = .ok () := by
  cases f with
  | report n field watcher =>
    obtain ⟨m, hm⟩ := hf
    exact memoizing_report hs hm watcher
  | recompute n field =>
    obtain ⟨m, spec, reference, hx, href, -⟩ := hf
    obtain ⟨i, hi, rfl⟩ := hs.instance? hx.member
    have hkept : i.discarded = false := hx.kept
    unfold runFollowUp
    refine .next (runOn_getInstance hi) ?_
    simp only [hkept, Bool.false_eq_true, if_false]
    refine .attempt_bind (h.recompute (x := (n, field)) hc hs hx (List.ne_nil_of_mem href)) ?_
    intro a t ht _ _
    have htrigger : Memoizing cascades o (ignore (call (.trigger n field))) t fun a _ =>
        a = .ok () :=
      .ignore ((h.trigger (x := (n, field)) hc ht ⟨_, hx.member, hx.kept⟩).mono fun _ _ _ => rfl)
    cases a with
    | ok _ => exact htrigger
    | error e =>
      cases e with
      | notReady => exact .pure ht rfl
      | _ => exact htrigger

/-- The watchers of a field run, unless it has none. -/
theorem memoizing_fire (h : call.Memoizes cascades o) (hs : s.Orderly o) {address : String}
    (hfree : cascades ∨ ¬ s.view.Watched address) :
    Memoizing cascades o (fire call address) s fun a _ => ∃ count, a = .ok count := by
  unfold fire
  refine .next runOn_get ?_
  have hmay : ∀ f ∈ (s.watches.callbacks address).values, cascades ∧ f.Fits o address := by
    intro f hf
    obtain ⟨watcher, hf⟩ := Table.mem_values.1 hf
    exact ⟨hfree.resolve_right fun hunwatched => hunwatched ⟨watcher, f, hf⟩, hs.fits hf⟩
  refine (Memoizing.forM (I := fun fs _ => ∀ f ∈ fs, cascades ∧ f.Fits o address) ?_
    s hs hmay).bind ?_ ?_
  · intro f fs t ht hfs
    obtain ⟨hc, hf⟩ := hfs f List.mem_cons_self
    refine (memoizing_runFollowUp h hc ht hf).mono fun a _ ha => ⟨ha, ?_⟩
    exact fun g hg => hfs g (List.mem_cons_of_mem _ hg)
  · exact fun _ t ht _ _ => .pure ht ⟨_, rfl⟩
  · rintro e t - ⟨ha, -⟩
    cases ha

/-- A field is settled, and its watchers run. -/
theorem memoizing_trigger (h : call.Memoizes cascades o) (hc : cascades) (hs : s.Orderly o)
    (hn : o.Keeps x.1) : Memoizing cascades o (trigger call x.1 x.2) s fun _ _ => True := by
  obtain ⟨m, hm, hkept⟩ := hn
  obtain ⟨i, hi, rfl⟩ := hs.instance? hm
  have hfire : ∀ {t : Session} (address : String), t.Orderly o → Memoizing cascades o (do
      let _ ← call (.fire address)
      pure ()) t fun _ _ => True :=
    fun address ht => (h.fire ht (.inl hc)).bind (fun _ _ hu _ _ => .pure hu trivial)
      fun _ _ _ _ => trivial
  unfold trigger
  split
  · exact .throw hs trivial
  · refine .next (runOn_getInstance hi) ?_
    split
    · exact hfire _ hs
    · exact hfire _ hs
    · exact .throw hs trivial
    · refine (h.compute hs ⟨_, hm, hkept⟩).bind ?_ fun _ _ _ _ => trivial
      intro _ t ht _ _
      obtain ⟨j, hj, -⟩ := ht.instance? hm
      refine .next (runOn_getInstance hj) ?_
      split
      · exact hfire _ ht
      · exact .pure ht trivial

/-! ## §6. Watching for somebody else. -/

/-- A later watcher is told what is in the cache. -/
theorem memoizing_laterWatch (hs : s.Orderly o) (hi : s.instance? n = some i) (watcher : String) :
    Memoizing cascades o (do
      match ← cached? n field with
      | some r => note (.reported watcher r)
      | none => pure ()) s fun _ _ => True := by
  refine .next (runOn_cached? hi field) ?_
  cases i.cache.result? field with
  | none => exact .pure hs trivial
  | some r => exact (memoizing_note hs (by simp)).mono fun _ _ _ => trivial

/-- **Watching a field**: the first watcher of a field has it computed. -/
theorem memoizing_watchField (ho : o.Sound) (h : call.Memoizes cascades o) (hs : s.Orderly o)
    (hn : o.Keeps x.1) (watcher : String) :
    Memoizing cascades o (watchField call x.1 x.2 watcher) s fun _ _ => True := by
  obtain ⟨m, hm, hkept⟩ := hn
  obtain ⟨i, hi, rfl⟩ := hs.instance? hm
  unfold watchField
  cases hfield : i.kind.info.field? x.2 with
  | none => exact .stop hs (runOn_declared_of_none hi hfield) trivial
  | some spec =>
    have hx : o.Declares x i.member spec := ⟨hm, hkept, hfield⟩
    let t := s.watching (i.member.address x.2) watcher (.report x.1 x.2 watcher)
    have ht : t.Orderly o := hs.watching ⟨i.member, hm⟩
    refine Returns.next (runOn_declared hi hfield) (.next (runOn_getInstance hi)
      (.next runOn_get (.next (runOn_set t) ?_)))
    -- only the first watcher has the field registered and computed
    by_cases hwatched : s.view.Watched (i.member.address x.2)
    · have hold : (s.watches.callbacks (i.fieldAddress x.2)).isEmpty = false :=
        Bool.eq_false_iff.2 fun hempty => isEmpty_callbacks_iff.1 hempty hwatched
      have hst : s.Memoizes cascades t := .of_watching (.refl _ t) fun _ _ _ => hwatched
      simp only [hold, Bool.false_eq_true, if_false]
      split
      · exact .of_runOn (runOn_pure _ _) ⟨ht, hst, trivial⟩
      · exact Returns.mono (memoizing_laterWatch ht (show t.instance? x.1 = some i from hi) watcher)
          fun _ _ hu => ⟨hu.1, hst.trans hu.2.1, trivial⟩
    · have hempty : (s.watches.callbacks (i.fieldAddress x.2)).isEmpty = true :=
        isEmpty_callbacks_iff.2 hwatched
      have hnew : (s.watches.callbacks (i.fieldAddress x.2)).contains watcher = false :=
        contains_callbacks_of_not_watched hwatched
      simp only [hempty, hnew, Bool.false_eq_true, if_false, if_true]
      refine Returns.mono (memoizing_attach (Q := fun _ => True) h ht hx ?_) ?_
      · intro a u hu
        have hreport : Memoizing cascades o (runFollowUp call (.report x.1 x.2 watcher)) u
            fun _ _ => True := (memoizing_report hu hm watcher).mono fun _ _ _ => trivial
        cases a with
        | ok _ => exact hreport
        | error e =>
          cases e with
          | notReady => exact .pure hu trivial
          | _ => exact hreport
      · rintro a u ⟨hu, htu, -, hdone⟩
        exact ⟨hu, .of_watching_field ho hx rfl htu hu hdone, trivial⟩

/-! ## §7. Operations on fields. -/

/-- **Every operation on a field memoizes**, by induction on how deep it may nest. -/
theorem memoizing_perform (ho : o.Sound) (halone : o.catalog.ComputesAlone)
    (hready : o.catalog.ComputesReady) (cascades : Prop) (fuel : Nat) :
    (perform fuel).Memoizes cascades o := by
  induction fuel with
  | zero => exact ⟨fun _ _ => .stuck, fun _ _ => .stuck, fun _ _ _ _ => .stuck,
      fun _ _ _ => .stuck, fun _ _ => .stuck, fun _ _ _ => .stuck, fun _ _ => .stuck⟩
  | succ fuel ih =>
    exact {
      register := fun hs hn => memoizing_register ho ih hs hn
      compute := fun hs hn => memoizing_computeField ho halone hready ih hs hn false nofun
      recompute := fun {s x m spec} hc hs hx hrefs => by
        have hbare : ¬ o.Bare x := fun hbare => hrefs (hx.bare_iff.1 hbare).2
        exact (memoizing_computeField ho halone hready ih hs ⟨m, hx.member, hx.kept⟩ true
          fun _ => ⟨hc, hbare⟩).mono fun _ _ _ => trivial
      field := fun hs hn hfree => memoizing_readField ho ih hs hn hfree
      resolve := fun hs hn => memoizing_resolveField ih hs hn
      trigger := fun hc hs hn => memoizing_trigger ih hc hs hn
      fire := fun hs hfree => memoizing_fire ih hs hfree }

end Session

end LazyFields
