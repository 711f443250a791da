/-
  LazyFields.Proofs.Session.Listening
  ────────────────────────────────
  **WHAT A WATCHER OF A FIELD IS TOLD.**

  To watch a field takes one of three ways.  The first watcher makes the field
  register and compute a chain of dependencies before it is told anything; a later
  one is told what is there; and one that watches the field already is told
  nothing, and its old callback stays.

    · `register_returns`, `compute_returns` — on the first way logic of fields is
      called at most, and the answer of the computation says whether the field has a
      result
    · `watch_returns` — so a new watcher is told the result once, if there is one
      when the call returns (`Told`)
    · `Goes` — how a session goes on while nobody stops the watcher, into operations
      within operations as well
    · `watch_reports_once` — the call, and from then on one report for each trigger
      of the field, if it has a result
    · `field_keeps_own_callback` — fields watch their dependencies under their own
      addresses, so a watcher of that name is not told
-/
import LazyFields.Proofs.Session.FailedWatch
import LazyFields.Proofs.Session.Firing
import LazyFields.Proofs.Session.Lasting
import LazyFields.Proofs.Session.Reachable
import LazyFields.Proofs.Session.WatchClosure

namespace LazyFields.Session

open LazyFields.Action

variable {c : Catalog} {s t u : Session} {x : Node} {n : Nat} {i : Instance} {spec : FieldSpec}
  {field address watcher : String}

/-! ## §1. Registering and computing. -/

/-- Watches were added, fields were finished, and logic of fields was called at most. -/
structure Progresses (s t : Session) : Prop extends s.view.Extends t.view where
  slots : ∀ x, t.view.slots x = s.view.slots x ∨ t.view.Finished x
  journal : ∃ events, t.journal = events ++ s.journal ∧ ∀ e ∈ events, e.IsComputed

namespace Progresses

theorem refl (s : Session) : s.Progresses s := ⟨.refl _, fun _ => .inl rfl, [], rfl, by simp⟩

theorem trans (h : s.Progresses t) (k : t.Progresses u) : s.Progresses u where
  toExtends := h.toExtends.trans k.toExtends
  slots x := by
    rcases k.slots x with hslot | hfinished
    · exact (h.slots x).imp hslot.trans fun hx => hx.congr hslot
    · exact .inr hfinished
  journal := Event.computed_trans h.journal k.journal

theorem watching (s : Session) (address watcher : String) (f : FollowUp) :
    s.Progresses (s.watching address watcher f) :=
  ⟨View.extends_watch, fun _ => .inl rfl, [], rfl, by simp⟩

theorem keeps (h : s.Progresses t) : s.view.Keeps t.view := .of_slots h.outline h.slots

/-- What nobody had claimed nobody has claimed. -/
theorem not_busy (h : s.Progresses t) (hx : ¬ s.view.Busy x) : ¬ t.view.Busy x := by
  rintro hbusy
  rcases h.slots x with hslot | ⟨e, hstored, -⟩
  · exact hx (hbusy.congr hslot.symm)
  · obtain ⟨previous, hclaimed⟩ := hbusy
    cases hstored.symm.trans hclaimed

end Progresses

theorem progresses_of_compute (ho : s.view.outline.Standing) (fuel n : Nat) (field : String) :
    (perform fuel (.compute n field)).Returns s fun _ t => s.Progresses t := by
  intro a t hrun
  obtain ⟨hadvances, -⟩ := advances_of_compute (x := (n, field)) ho hrun
  have hfills := fills_perform (D := fun _ => True) ho (fun _ _ => trivial) fuel
  obtain ⟨-, hwrites, -⟩ := hfills.compute (x := (n, field)) trivial s (.refl _ s) a t hrun
  exact ⟨hadvances.extends, fun x => (hadvances.slots x).imp_right And.right, hwrites.journal⟩

section Registering

variable {fuel : Nat} (hregister : ∀ {s : Session}, s.view.outline.Standing → ∀ n field,
  (perform fuel (.register n field)).Returns s fun _ t => s.Progresses t)

include hregister

/-- A target is followed, given what registering comes to within. -/
theorem progresses_of_follow (ho : s.view.outline.Standing) (hi : s.instance? n = some i)
    (target : Target) :
    (follow (perform fuel) target n field).Returns s fun _ t => s.Progresses t := by
  intro r t hrun
  rw [runOn_follow hi] at hrun
  have hwatching := Progresses.watching s target.address (i.fieldAddress field) (.recompute n field)
  have hstay : (pure () : Action Unit).Returns
      (s.watching target.address (i.fieldAddress field) (.recompute n field)) fun _ t =>
        s.Progresses t := .of_runOn (runOn_pure () _) hwatching
  split at hrun
  · -- nobody watched the target before
    split at hrun
    · exact hstay r t hrun
    · next source hsource =>
      refine Returns.bind (R := fun _ t => s.Progresses t)
        (hregister (s := s.watching ..) ho source target.field)
        (fun _ u hu => ?_) (fun e u hu => hwatching.trans hu) r t hrun
      refine Returns.bind (P := fun _ w => s.Progresses w) (Returns.attempt ?_)
        (fun _ w hw => .of_runOn (runOn_pure () w) hw) fun _ _ hw => hw
      exact (progresses_of_compute (hu.outline ▸ ho) fuel source target.field).mono
        fun _ _ hw => hwatching.trans (hu.trans hw)
  · exact hstay r t hrun

/-- The loop of a registration. -/
theorem progresses_of_references (ho : s.view.outline.Standing) (hi : s.instance? n = some i)
    (refs : List String) : ∀ t : Session, s.Progresses t →
      (refs.forM (followReference (perform fuel) n field)).Returns t fun _ u => s.Progresses u := by
  induction refs with
  | nil => exact fun t ht => .of_runOn (runOn_pure () t) ht
  | cons reference refs ih =>
    intro t ht
    have hm : t.view.outline.member? n = some i.member := ht.outline ▸ member?_of_instance hi
    obtain ⟨j, hj, -⟩ := instance_of_member? hm
    refine Returns.bind (P := fun _ u => s.Progresses u) ?_ (fun _ u hu => ih u hu) fun _ _ hu => hu
    have haim := runOn_aim hj reference
    unfold followReference
    cases htarget : t.view.outline.aim n j.member reference with
    | error e => exact .stop (htarget ▸ haim) ht
    | ok target =>
      refine .next (htarget ▸ haim) ?_
      exact (progresses_of_follow hregister (ht.outline ▸ ho) hj target).mono
        fun _ _ hu => ht.trans hu

end Registering

/-- **Registering calls no watcher,** by induction on how deep registrations nest. -/
theorem progresses_of_register (fuel : Nat) : ∀ {s : Session}, s.view.outline.Standing →
    ∀ n field, (perform fuel (.register n field)).Returns s fun _ t => s.Progresses t := by
  induction fuel with
  | zero =>
    intro s _ n field r t hrun
    simp [perform] at hrun
  | succ fuel ih =>
    intro s ho n field
    show (register (perform fuel) n field).Returns s _
    cases hi : s.instance? n with
    | none =>
      intro r t hrun
      simp [register, declared, runOn_bind, runOn_getInstance_of_none hi] at hrun
    | some i =>
      unfold register
      cases hfield : i.kind.info.field? field with
      | none => exact .stop (runOn_declared_of_none hi hfield) (.refl s)
      | some spec =>
        refine .next (runOn_declared hi hfield) ?_
        split
        · exact .of_runOn (runOn_pure () s) (.refl s)
        · cases hlive : s.live with
          | false => exact .stop (runOn_requireLive_of_ended hi hlive) (.refl s)
          | true =>
            exact .next (runOn_requireLive hi hlive)
              (progresses_of_references ih ho hi spec.refs s (.refl s))

/-! ## §2. The first watcher. -/

/-- Operations lead from sessions of the catalog to sessions of the catalog. -/
theorem StemsFrom.returns (hs : s.StemsFrom c) (op : Operation) (fuel : Nat) :
    (perform fuel op).Returns s fun _ t => t.StemsFrom c := fun _ _ hrun => .run hs hrun

theorem StemsFrom.consistent (hs : s.StemsFrom c) (hlawful : c.Lawful) (hlive : s.live = true) :
    s.Consistent c where
  catalog := hs.runsOver.catalog
  live := hlive
  keyed := hs.keyed
  kind hm := by
    obtain ⟨key, hkey⟩ := hs.runsOver.kind hm
    rw [hlawful.name hkey]
    exact hkey
  inverse := hs.runsOver.inverse

/-- A lawful catalog knows the kinds of all references. -/
theorem Consistent.not_unresolved (hs : s.Consistent c) (hlawful : c.Lawful) {m : Member}
    (hm : s.view.outline.member? n = some m) (hfield : m.kind.info.field? field = some spec)
    (e : Error) : ¬ s.view.Unresolved n m spec.refs e := by
  rintro ⟨reference, kind, target, hopen, hsplit, hunknown, -⟩
  have href : reference ∈ spec.refs := List.mem_of_find?_eq_some hopen
  obtain ⟨spec', hknown⟩ := hlawful.known ((hs.catalog_field? hm).trans hfield) href
  rw [referent, hsplit] at hknown
  obtain ⟨k, hk, -⟩ := Option.bind_eq_some_iff.1 hknown
  have hcatalog : s.view.outline.catalog = c := hs.catalog
  rw [hcatalog, Catalog.has, Catalog.lookup?, hk] at hunknown
  cases hunknown

section Watching

variable (hlawful : c.Lawful) (halone : c.ComputesAlone) (hs : s.StemsFrom c)
  (hlive : s.live = true) (hi : s.instance? n = some i)
  (hfield : i.kind.info.field? field = some spec)

include hlawful halone hs hlive hi hfield

/-- Registering a declared field succeeds. -/
theorem register_returns : Ends (fun call => call (.register n field)) s fun a t =>
    a = .ok () ∧ s.Progresses t ∧ t.StemsFrom c := by
  have ho := hs.standing halone
  have hends := register_extends ho s.view.outline.addresses (n, field) i.member
    (member?_of_instance hi) s rfl fun _ haddress _ => haddress
  refine (hends.and_returns (Q := fun a t => a = .ok () ∧ s.Progresses t ∧ t.StemsFrom c)
    fun fuel a t hrun => ⟨?_, progresses_of_register fuel ho n field a t hrun,
      hs.returns (.register n field) fuel a t hrun⟩).mono fun _ _ h => h.2
  have hclosed := (closes_perform hlawful halone (n, field) fuel).register
    (hs.consistent hlawful hlive) a t hrun
  exact hclosed.2.2.1.2 spec ⟨i, hi, hfield⟩

/-- The answer of a computation says whether the field has a result now, if nobody has
claimed it and it is not static without one. -/
theorem compute_returns (hidle : ¬ s.view.Busy (n, field))
    (hgiven : spec.isStatic = true → (s.view.result? (n, field)).isSome = true) :
    Ends (fun call => call (.compute n field)) s fun a t => s.Progresses t ∧ t.StemsFrom c
      ∧ (a = .error .notReady ↔ t.view.result? (n, field) = none) := by
  have ho := hs.standing halone
  suffices hanswer : Ends (fun call => call (.compute n field)) s fun a t =>
      (a = .error .notReady ↔ t.view.result? (n, field) = none) by
    refine (hanswer.and_returns (Q := fun _ t => s.Progresses t ∧ t.StemsFrom c)
      fun fuel a t hrun => ⟨progresses_of_compute ho fuel n field a t hrun,
        hs.returns (.compute n field) fuel a t hrun⟩).mono fun _ _ h => ⟨h.2.1, h.2.2, h.1⟩
  -- the field had a result already
  have hready : ∀ {a : Except Error Unit} {t : Session}, (s.view.result? (n, field)).isSome = true →
      a = .ok () ∧ t = s → (a = .error .notReady ↔ t.view.result? (n, field) = none) := by
    rintro _ _ hsome ⟨rfl, rfl⟩
    rw [Option.isSome_iff_ne_none] at hsome
    simp [hsome]
  cases hcomputed : spec.isStatic with
  | true =>
    exact (compute_static_ends (x := (n, field)) hi hfield hcomputed).mono
      fun _ _ => hready (hgiven hcomputed)
  | false =>
    by_cases hfinished : s.view.Finished (n, field)
    · obtain ⟨r, hr⟩ := hfinished.result?
      exact (compute_finished_ends (x := (n, field)) hi hfield hcomputed hfinished).mono
        fun _ _ => hready (by rw [hr]; rfl)
    · -- nothing is stored, so the answer tells what will be
      have hnone : s.view.result? (n, field) = none := by
        rw [Option.eq_none_iff_forall_ne_some]
        exact fun r hr => View.not_open_of_result? hr ⟨hidle, hfinished⟩
      have htells : Ends (fun call => call (.compute n field)) s
          (s.Tells (n, field) i.member spec) :=
        .call ((computeField_exits_gathered (x := (n, field)) ho hlive hi hfield hcomputed
          false).mono fun _ _ h => h.tells)
      refine (htells.and_returns (Q := fun _ t => s.Progresses t ∧ t.Consistent c)
        fun fuel a t hrun => ?_).mono ?_
      · have hprogress := progresses_of_compute ho fuel n field a t hrun
        have hlive' : t.live = true :=
          (congrArg Outline.live hprogress.outline).trans hlive
        have hstems := hs.returns (.compute n field) fuel a t hrun
        exact ⟨hprogress, hstems.consistent hlawful hlive'⟩
      · rintro a t ⟨htells, hprogress, hconsistent⟩
        cases a with
        | ok _ =>
          obtain ⟨r, hr⟩ := (htells.done rfl).result?
          simp [hr]
        | error e =>
          by_cases he : e = .notReady
          · subst he
            exact iff_of_true rfl ((View.result?_congr (htells.waits rfl)).trans hnone)
          · have hm : t.view.outline.member? n = some i.member :=
              hprogress.outline ▸ member?_of_instance hi
            obtain ⟨now, hstored⟩ := htells.failed e rfl he
              (hconsistent.not_unresolved hlawful hm hfield e)
            have hr := View.result?_of_stored (v := t.view) hstored
            simp [hr, he, Entry.result?, Entry.ofError]

end Watching

/-! ## §3. The call. -/

/-- The watcher has the callback that it had, or a report of the field.  Besides logic of
fields nobody is called but the watcher: once, in the end, with the result of the field,
if it is new and there is a result then. -/
structure Told (address watcher : String) (x : Node) (s t : Session) : Prop where
  kept : (t.watches.callbacks address).get? watcher
    = some (((s.watches.callbacks address).get? watcher).getD (.report x.1 x.2 watcher))
  journal : ∃ events, (∀ e ∈ events, e.IsComputed)
    ∧ t.journal = (if (s.watches.callbacks address).contains watcher then []
        else (t.view.result? x).toList.map (.reported watcher)) ++ (events ++ s.journal)

/-- A new watcher is told what came of the computation, and nothing is changed by that. -/
theorem told_of_watching (hnew : (s.watches.callbacks address).contains watcher = false)
    (h : (s.watching address watcher (.report x.1 x.2 watcher)).Progresses t)
    {r : Option Outcome} (hr : t.view.result? x = r) :
    Told address watcher x s
      { t with journal := r.toList.map (.reported watcher) ++ t.journal } := by
  subst hr
  obtain ⟨events, hjournal, hcomputed⟩ := h.journal
  refine ⟨?_, events, hcomputed, ?_⟩
  · have hnow : ((s.watching address watcher (.report x.1 x.2 watcher)).watches.callbacks
        address).get? watcher = some _ := WatchGraph.get?_callbacks_watch.trans (if_pos ⟨rfl, rfl⟩)
    exact h.callbacks hnow
  · rw [hnew, if_neg (by simp)]
    exact congrArg _ hjournal

section Watching

variable (hlawful : c.Lawful) (halone : c.ComputesAlone) (hs : s.StemsFrom c)
  (hlive : s.live = true) (hi : s.instance? n = some i)
  (hfield : i.kind.info.field? field = some spec)

include hlawful halone hs hlive hi hfield

/-- **A new watcher is told once, if the field has a result when the call returns;** a
watcher that watches it already is not told. -/
theorem watch_returns (hkept : i.discarded = false) (hidle : ¬ s.view.Busy (n, field))
    (hgiven : spec.isStatic = true → (s.view.result? (n, field)).isSome = true)
    (watcher : String) : Ends (fun call => call (.watch n field watcher)) s fun a t =>
      a = .ok () ∧ Told (i.fieldAddress field) watcher (n, field) s t := by
  refine .call ?_
  cases hknown : (s.watches.callbacks (i.fieldAddress field)).contains watcher with
  | true =>
    -- the watcher watches already, and nothing at all happens
    have hsame (call : Performer) : (watchField call n field watcher).runOn s = some (.ok (), s) :=
      runOn_watchField_of_contains hs.runsOver hi hfield hknown
    refine .of_runOn hsame ⟨rfl, ?_, [], by simp, ?_⟩
    · obtain ⟨f, hf⟩ := Option.isSome_iff_exists.1 hknown
      rw [hf, Option.getD_some]
    · simp [hknown]
  | false =>
    have hwatching := Progresses.watching s (i.fieldAddress field) watcher (.report n field watcher)
    have hstems : (s.watching (i.fieldAddress field) watcher (.report n field watcher)).StemsFrom
        c := .edit hs rfl (hs.runsOver.watching ..).inverse
    have hthere : (s.watching (i.fieldAddress field) watcher
      (.report n field watcher)).instance? n = some i := hi
    show Ends (fun call => watchField call n field watcher) s _
    unfold watchField
    refine .next (runOn_declared hi hfield) (.next (runOn_getInstance hi) (.next runOn_get ?_))
    refine .next (runOn_set (s.watching (i.fieldAddress field) watcher (.report n field watcher))) ?_
    split
    · next halready => exact absurd (hknown.symm.trans halready) (by simp)
    · split
      · -- the first watcher: the answer of the computation says whether there is a result
        refine .bind_ok (register_returns hlawful halone hstems hlive hthere hfield)
          fun t ht => ?_
        obtain ⟨hregistered, ht⟩ := ht
        have hm : t.view.outline.member? n = some i.member :=
          hregistered.outline ▸ member?_of_instance hi
        obtain ⟨j, hj, hmember⟩ := instance_of_member? hm
        have hkind : j.kind = i.kind := congrArg Member.kind hmember
        refine .attempt_bind (compute_returns hlawful halone ht
          ((congrArg Outline.live hregistered.outline).trans hlive) hj (hkind ▸ hfield)
          (hregistered.not_busy (hwatching.not_busy hidle)) fun hstatic =>
            hregistered.keeps.result _ (hgiven hstatic)) fun a u hu => ?_
        obtain ⟨hcomputed, -, hanswer⟩ := hu
        have hprogress := hregistered.trans hcomputed
        split
        · exact .pure ⟨rfl, told_of_watching hknown hprogress (hanswer.1 rfl)⟩
        · next hready =>
          obtain ⟨r, hr⟩ := Option.ne_none_iff_exists'.1 fun hnone => hready (hanswer.2 hnone)
          have hm : u.view.outline.member? n = some i.member :=
            hprogress.outline ▸ member?_of_instance hi
          exact .of_runOn (fun _ => runOn_report (x := (n, field)) hm hkept hr)
            ⟨rfl, told_of_watching hknown hprogress hr⟩
      · -- a later one: there is a result in the end if there is one now
        have hresult := result?_of_instance hthere field
        refine .next (runOn_cached? hthere field) ?_
        split
        · next r hr =>
          exact .of_runOn (fun _ => runOn_note _)
            ⟨rfl, told_of_watching hknown (.refl _) (hresult.trans hr)⟩
        · next hnone =>
          exact .pure ⟨rfl, told_of_watching hknown (.refl _) (hresult.trans hnone)⟩

end Watching

/-! ## §4. From then on. -/

/-- The session goes on while nobody stops the watcher: by operations, into operations
within operations, and by what is done to caches, claims and the time in between. -/
inductive Goes (watcher : String) (s : Session) : Session → Prop
  | refl : Goes watcher s s
  | run {t u : Session} {fuel : Nat} {op : Operation} {r : Except Error op.Answer} :
      Goes watcher s t → op ≠ .unregister watcher → t.run fuel op = some (r, u) →
      Goes watcher s u
  | enter {t u : Session} {fuel : Nat} {op inner : Operation} :
      Goes watcher s t → op ≠ .unregister watcher → Performs fuel op t inner u →
      Goes watcher s u
  | edit {t u : Session} : Goes watcher s t → u.outline = t.outline → u.watches = t.watches →
      Goes watcher s u

/-- Every trigger of the field that ends tells the watcher the result of the field once,
and where nothing is under way every trigger ends. -/
structure Hears (address watcher : String) (x : Node) (s : Session) : Prop where
  once : ∀ {fuel a t}, s.run (fuel + 1) (.fire address) = some (a, t) →
    ReportsOnce fuel address watcher x s t
  ends : s.view.Regular → ∃ fuel a t, s.run fuel (.fire address) = some (a, t)

/-- The watch graph lists the watcher, to be told of the field. -/
def Reports (address watcher : String) (x : Node) (g : WatchGraph FollowUp) : Prop :=
  (g.callbacks address).get? watcher = some (.report x.1 x.2 watcher)

/-- The watcher is to be told of a field of a published instance. -/
structure Listens (c : Catalog) (address watcher : String) (x : Node) (s : Session) : Prop
    extends s.Lasting c (Reports address watcher x) where
  keyed : s.outline.Keyed
  published : ∃ key, s.outline.published.get? key = some x.1

/-- Nobody else can stop the watcher. -/
theorem respects_reports {op : Operation} (h : op ≠ .unregister watcher) :
    op.Respects (Reports address watcher x) := by
  cases op with
  | unregister name =>
    intro g hg
    have hname : name ≠ watcher := fun heq => h (heq ▸ rfl)
    exact (WatchGraph.get?_callbacks_unwatch_of_ne hname).trans hg
  | _ => trivial

/-- **A watcher listens until somebody stops it.** -/
theorem Listens.goes (h : s.Listens c address watcher x) (hkeeps : c.KeepsWatches)
    (hgoes : Goes watcher s t) : t.Listens c address watcher x := by
  have hupholds : c.Upholds (Reports address watcher x) :=
    hkeeps.upholds fun hg _ _ _ => WatchGraph.get?_callbacks_watch_of_some hg
  induction hgoes with
  | refl => exact h
  | run _ hop hrun ih =>
    obtain ⟨hkeyed, hevolves⟩ := evolves_run ih.keyed hrun
    obtain ⟨key, hkey⟩ := ih.published
    exact ⟨ih.toLasting.run hupholds (respects_reports hop) hrun, hkeyed, key,
      hevolves.published hkey⟩
  | enter _ hop hperforms ih =>
    -- instances under construction are not published, so they are out of the way
    obtain ⟨hprecedes, -⟩ := hperforms.precedes ih.keyed
    obtain ⟨key, hkey⟩ := ih.published
    exact ⟨hperforms.lasting ih.toLasting hupholds (respects_reports hop), hprecedes.keyed, key,
      hprecedes.published hkey⟩
  | edit _ houtline hwatches ih =>
    exact ⟨ih.toLasting.carried (ih.runsOver.congr houtline hwatches) hwatches,
      houtline ▸ ih.keyed, houtline ▸ ih.published⟩

/-- A watcher that listens hears of every trigger of the field while it has a result. -/
theorem Listens.hears (h : s.Listens c address watcher x) (halone : c.ComputesAlone)
    (hresult : (s.view.result? x).isSome = true) : Hears address watcher x s where
  once hrun := by
    obtain ⟨key, hkey⟩ := h.published
    obtain ⟨m, hm, hkept, -⟩ := h.keyed hkey
    exact reportsOnce_of_fire (h.runsOver.standing h.keyed halone) hm hkept h.holds hresult hrun
  ends hregular := fire_regular_ends hregular address

/-- **A watcher is told exactly once.**  In every session over an accepted schema, whose logic
asks for no more than static fields, watching a field that nobody has claimed succeeds.
A new watcher is told the result once, in the end, if there is one then, and one that
watches the field already is not told; its old callback stays.  Otherwise, or if that is a
report of the field too, from then on, until somebody stops the watcher, every trigger of
the field that begins while the field has a result tells it the result once. -/
theorem watch_reports_once {file : Source.File} {schema : Schema} (hfile : file.Accepted schema)
    (hc : c.Over schema) (halone : c.ComputesAlone) (hprepares : c.PreparesAlone)
    (hidentifies : c.IdentifiesByStatics) (hs : s.StemsFrom c) (hlive : s.live = true)
    (hi : (n, i) ∈ s.publishedInstances) (hfield : i.kind.info.field? field = some spec)
    (hidle : ¬ s.view.Busy (n, field))
    (hgiven : spec.isStatic = true → (s.view.result? (n, field)).isSome = true)
    (watcher : String) : ∃ fuel t, s.run fuel (.watch n field watcher) = some (.ok (), t)
      ∧ Told (i.fieldAddress field) watcher (n, field) s t
      ∧ (((s.watches.callbacks (i.fieldAddress field)).get? watcher).getD (.report n field watcher)
          = .report n field watcher →
        ∀ u, Goes watcher t u → (u.view.result? (n, field)).isSome = true →
          Hears (i.fieldAddress field) watcher (n, field) u) := by
  have hthere := instance?_of_mem_publishedInstances hi
  -- what is published stands under its address, and is not discarded
  obtain ⟨key, hkey⟩ : ∃ key, s.outline.published.get? key = some n := by
    obtain ⟨m, hm, hpair⟩ := List.mem_filterMap.1 hi
    obtain ⟨j, -, heq⟩ := Option.map_eq_some_iff.1 hpair
    cases heq
    exact Table.mem_values.1 hm
  have hkept : i.discarded = false := by
    obtain ⟨m, hm, hkept, -⟩ := hs.keyed hkey
    cases (member?_of_instance hthere).symm.trans hm
    exact hkept
  obtain ⟨fuel, a, t, hrun, rfl, htold⟩ :=
    (watch_returns (hfile.lawful hc) halone hs hlive hthere hfield hkept hidle hgiven watcher).run
  refine ⟨fuel, t, hrun, htold, fun hcallback u hgoes hresult => ?_⟩
  have hstems : t.StemsFrom c := .run hs hrun
  obtain ⟨hkeyed, hevolves⟩ := evolves_run hs.keyed hrun
  have hlistens : t.Listens c (i.fieldAddress field) watcher (n, field) :=
    ⟨⟨hstems.runsOver, htold.kept.trans (congrArg some hcallback)⟩, hkeyed, key,
      hevolves.published hkey⟩
  have hkeeps : c.KeepsWatches := .of_alone halone hprepares hidentifies
  exact (hlistens.goes hkeeps hgoes).hears halone hresult

section Sample

open LazyFields.Sample

/-- Nothing is under way in the sample after `f` was read. -/
theorem regular_resolvesF : resolvesF.StemsFrom Sample.catalog ∧ resolvesF.view.Regular := by
  obtain ⟨_, hr⟩ := run_after start (.create "r" ∅) (by decide +kernel)
  obtain ⟨_, hx⟩ := run_after hasR createX (by decide +kernel)
  obtain ⟨_, hf⟩ := run_after (after hasR createX) (.resolve 0 "f") (by decide +kernel)
  have hleads : Leads (fun watcher => ¬ Sample.catalog.Addresses watcher) start resolvesF :=
    (((Leads.refl start).perform (.create _ _) hr).perform (.create _ _) hx).perform
      (.onField (by decide +kernel) .resolve fun _ heq => nomatch heq) hf
  have hawake := awake_of_leads computesReady preparesAlone identifiesByStatics hleads
    (awake_new (accepted.lawful catalog_over) computesPurely.1 0)
  exact ⟨.run (.run stemsFrom_hasR hx) hf, hawake.1.regular⟩

/-- The sample after `f` was read and then watched. -/
def watchesF : Session := after resolvesF (.watch 0 "f" "w")

/-- The watcher is told the value of `f` at once, and hears of every later trigger of `f`,
also when the field `f` itself does not watch anything any more. -/
theorem told_f : ∃ i, (0, i) ∈ resolvesF.publishedInstances
    ∧ Told (i.fieldAddress "f") "w" (0, "f") resolvesF watchesF
    ∧ Hears (i.fieldAddress "f") "w" (0, "f") (after watchesF (.unregister "r\x00\x00f")) := by
  obtain ⟨hstems, hregular⟩ := regular_resolvesF
  have hthere : resolvesF.publishedInstances.any (fun e => e.1 = 0
      && (e.2.kind.info.field? "f").any fun spec => !spec.isStatic
        && ((resolvesF.watches.callbacks (e.2.fieldAddress "f")).get? "w").isNone) = true := by
    decide +kernel
  obtain ⟨⟨n, i⟩, hi, hthere⟩ := List.any_eq_true.1 hthere
  simp only [Bool.and_eq_true, decide_eq_true_eq, Option.any_eq_true, Bool.not_eq_true',
    Option.isNone_iff_eq_none] at hthere
  obtain ⟨rfl, spec, hfield, hcomputed, hnew⟩ := hthere
  have hidle : ¬ resolvesF.view.Busy (0, "f") := not_exists.2 (hregular.quiet (0, "f"))
  obtain ⟨fuel, t, hrun, htold, hhears⟩ := watch_reports_once accepted catalog_over
    computesPurely.1 preparesAlone identifiesByStatics hstems (by decide +kernel) hi hfield hidle
    (by simp [hcomputed]) "w"
  have hwatches : resolvesF.run 20 (.watch 0 "f" "w") = some (.ok (), watchesF) :=
    run_eq_after (by decide +kernel)
  obtain ⟨-, rfl⟩ := Prod.mk.inj (run_unique hwatches hrun)
  obtain ⟨_, hstops⟩ := run_after watchesF (.unregister "r\x00\x00f") (by decide +kernel)
  refine ⟨i, hi, htold, hhears (by rw [hnew]; rfl) _ (.run .refl (by simp) hstops) ?_⟩
  decide +kernel

/-- **A watcher that poses as a field is not told.**  The field `g` watches `s` under its own
address, and who watches `s` under that name does not get a callback. -/
theorem field_keeps_own_callback : ¬ ∀ {file : Source.File} {schema : Schema} {c : Catalog}
    {s t u : Session} {n : Nat} {i : Instance} {spec : FieldSpec} {field watcher : String}
    {fuel fuel' : Nat} {a : Except Error Nat}, file.Accepted schema → c.Over schema →
    c.ComputesAlone → c.PreparesAlone → c.IdentifiesByStatics → s.StemsFrom c → s.live = true →
    s.view.Regular → (n, i) ∈ s.publishedInstances → i.kind.info.field? field = some spec →
    s.run fuel (.watch n field watcher) = some (.ok (), t) →
    (t.view.result? (n, field)).isSome = true →
    t.run fuel' (.fire (i.fieldAddress field)) = some (a, u) →
    t.reports watcher < u.reports watcher := by
  intro h
  obtain ⟨hstems, hregular⟩ := regular_resolvesF
  have hthere : resolvesF.publishedInstances.any (fun e => e.1 = 1
      && e.2.fieldAddress "s" = "x\x00\x00s" && (e.2.kind.info.field? "s").isSome) = true := by
    decide +kernel
  obtain ⟨⟨n, i⟩, hi, hthere⟩ := List.any_eq_true.1 hthere
  simp only [Bool.and_eq_true, decide_eq_true_eq, Option.isSome_iff_exists] at hthere
  obtain ⟨⟨rfl, haddress⟩, spec, hfield⟩ := hthere
  -- the watcher takes the address of the field as its name
  let poses : Operation := .watch 1 "s" "r\x00\x00g"
  have hposes : resolvesF.run 20 poses = some (.ok (), after resolvesF poses) :=
    run_eq_after (by decide +kernel)
  let fires : Operation := .fire "x\x00\x00s"
  obtain ⟨a, hfires⟩ : ∃ a, (after resolvesF poses).run 20 (.fire (i.fieldAddress "s"))
      = some (a, after (after resolvesF poses) fires) := by
    rw [haddress]
    exact run_after (after resolvesF poses) fires (by decide +kernel)
  have htold := h accepted catalog_over computesPurely.1 preparesAlone identifiesByStatics hstems
    (by decide +kernel) hregular hi hfield hposes (by decide +kernel) hfires
  revert htold
  decide +kernel

end Sample

end LazyFields.Session
