/-
  LazyFields.Proofs.Session.Updates
  ────────────────────────────────
  **RUNS WITH UPDATES.**

  The owner of a session creates, reads, watches and forgets as before, and now
  and then gives a static field a new value and triggers it.  Whatever was
  registered and depends on the value is settled afterwards, as if everything
  had been evaluated from scratch; whatever does not depend on it keeps its entry
  (`update_settles`).

  This takes two things of the owner.  No watcher goes by the name of a field;
  and whoever is settled when an update comes, and depends on it, has to be
  registered: a cascade cannot know of others, which stay old and pass that on
  when they are registered later.
-/
import LazyFields.Proofs.Session.Update

namespace LazyFields

/-! ## §1. Sessions that are up to date. -/

/-- Whatever is settled is its evaluation, and whatever was asked for is
registered. -/
def Current (c : Catalog) (given : Nat → Args) (asked : Node → Prop) (tasks : List Task)
    (v : View) : Prop := Coherent c given v ∧ v.Watchful asked tasks

theorem protocol_current {c : Catalog} (hpure : c.ComputesPurely) (given : Nat → Args)
    (asked : Node → Prop) :
    Protocol (fun watcher => True ∧ ¬ c.Addresses watcher)
      (fun v x r => r = v.outline.evaluate (constants given) x) (Current c given asked) :=
  (protocol_coherent hpure given).watchful (fun h => h.catalog) asked

/-- The field that an operation registers. -/
def Operation.asks? : Operation → Option Node
  | .register n f => some (n, f)
  | .resolve n f => some (n, f)
  | .watch n f _ => some (n, f)
  | _ => none

namespace Session

open LazyFields.Action

variable {c : Catalog} {config : Config} {s t : Session} {given : Nat → Args}
  {asked : Node → Prop} {x : Node} {m : Member} {spec : FieldSpec}

/-- The fields that were asked for, after an operation. -/
def askedAfter (s : Session) (asked : Node → Prop) (op : Operation) (x : Node) : Prop :=
  asked x ∨ op.asks? = some x ∧ s.outline.Has x

/-- **A permitted operation ends, and leaves the session up to date.** -/
theorem current_ends (hpure : c.ComputesPurely) (hprepares : c.PreparesAlone)
    (hidentifies : c.IdentifiesByStatics) (h : Current c given asked [] s.view) {op : Operation}
    (hop : s.Plain op)
    (hwatch : ∀ n field watcher, op = .watch n field watcher → ¬ c.Addresses watcher)
    (hunregister : ∀ watcher, op = .unregister watcher → ¬ c.Addresses watcher) :
    Ends (fun call => call op) s fun _ t => Current c (s.givenAfter given op) asked [] t.view := by
  have hcatalog : s.catalog = c := h.1.catalog
  have P := protocol_current hpure (s.givenAfter given op) asked
  have hsame := coherent_givenAfter h.1 op
  refine plain_ends P (hcatalog ▸ hprepares) (hcatalog ▸ hidentifies) hop ⟨hsame, h.2⟩ ?_ ?_
    (fun _ hw => ⟨hsame.forget hw, h.2.forget hw⟩) ?_ ?_
  · exact fun n field watcher heq => ⟨trivial, hwatch n field watcher heq⟩
  · intro v w x m spec r hv hx hcomputed hfills hyields hr now
    exact ⟨hv.1.rerun hpure ⟨m, spec, hx, hcomputed⟩ hfills hyields hr now,
      hv.2.steady (hfills.steady.trans ⟨rfl, rfl⟩) (by simp)⟩
  · intro watcher heq
    refine ⟨hsame.unwatch watcher, h.2.unwatch h.1.regular.sound ?_⟩
    rw [h.1.catalog]
    exact hunregister watcher heq
  · rintro kind args m now published rfl hstatics hkind hm haccepts
    exact ⟨coherent_add h.1 hstatics hkind hm haccepts, h.2.add h.1.regular hm⟩

/-- Whatever an operation asks for is registered by it. -/
theorem attached_of_asks (hpure : c.ComputesPurely) (h : Current c given asked [] s.view)
    (hx : s.outline.Has x) {op : Operation} (hasks : op.asks? = some x)
    (hwatch : ∀ n field watcher, op = .watch n field watcher → ¬ c.Addresses watcher) :
    Ends (fun call => call op) s fun _ t => t.view.outline.Has x ∧ t.view.Attached x := by
  have P := protocol_current hpure given asked
  have hhas : ∀ {t : Session}, s.view.Extends t.view → t.view.outline.Has x := fun hext => by
    rw [hext.outline]
    exact hx
  cases op with
  | register n field =>
    obtain rfl : (n, field) = x := Option.some.inj hasks
    refine (register_ends P h hx).mono ?_
    rintro _ t ⟨-, -, hext, hattached⟩
    exact ⟨hhas hext, hattached⟩
  | resolve n field =>
    obtain rfl : (n, field) = x := Option.some.inj hasks
    refine (resolve_ends P h hx).mono ?_
    rintro _ t ⟨v, -, hext, hattached, hfills, -⟩
    exact ⟨hhas (hext.trans hfills.steady.extends), hattached.extend hfills.steady.extends⟩
  | watch n field watcher =>
    obtain rfl : (n, field) = x := Option.some.inj hasks
    obtain ⟨m, spec, hdecl⟩ := hx
    refine (watch_ends P h hdecl ⟨trivial, hwatch n field watcher rfl⟩).mono ?_
    rintro _ t ⟨-, hJ, hext, hwatched⟩
    have hdecl' : t.view.outline.Declares (n, field) m spec := by
      rw [hext.outline]
      exact hdecl
    exact ⟨⟨m, spec, hdecl'⟩, (hJ.2.linked hdecl' hwatched).resolve_right (by simp)⟩
  | _ => simp [Operation.asks?] at hasks

/-! ## §2. Updates. -/

/-- **A value is stored.** -/
theorem store_ends (hx : s.view.outline.Declares x m spec) (value : Value) :
    Ends (fun call => call (.store x.1 x.2 value)) s fun a t =>
      a = .ok () ∧ t.view = s.view.give x value s.now := by
  obtain ⟨i, hi, rfl⟩ := instance_of_member? hx.member
  refine .call ?_
  show Ends (fun _ => do storeEntry x.1 x.2 (Entry.ofValue value (← get).now)) s _
  refine .next runOn_get (.of_runOn (fun _ => runOn_storeEntry hi x.2 _) ⟨rfl, ?_⟩)
  exact view_setSlot hi x.2 _

/-- **A new value is triggered**, and the cascade comes to its end. -/
theorem trigger_given_ends (hpure : c.ComputesPurely) (hready : c.ComputesReady)
    (h : Current c given asked [] s.view) (hx : s.outline.Declares x m spec)
    (hstatic : spec.isStatic = true) (hcomplete : s.outline.Complete) {value : Value} {now : Int}
    (ht : t.view = s.view.give x value now) :
    Ends (fun call => call (.trigger x.1 x.2)) t fun a u =>
      a = .ok () ∧ View.Updating (s.view.give x value now) x [] u.view := by
  have hcatalog : s.view.outline.catalog = c := h.1.catalog
  have hu : (s.view.give x value now).Watchful asked [] := h.2.steady ⟨rfl, rfl⟩ (by simp)
  have C := View.cascade_updating (x := x) hu (by rw [← hcatalog] at hpure; exact hpure)
    (by rw [← hcatalog] at hready; exact hready) hcomplete
  have hstart := h.1.updating h.2 hx hstatic value now
  rw [← ht] at C hstart ⊢
  have hx' : t.view.outline.Declares x m spec := by
    rw [ht]
    exact hx
  have hset : t.view.Settled x (.ok value) := by
    rw [ht]
    exact View.settled_put s.view x (r := .ok value) (by simp) now
  rw [← List.append_nil (t.view.followers (m.address x.2))] at hstart
  exact trigger_settled_ends hx' (hstart.regular.sound.isName hx').2.1 hset
    ((fire_ends C hstart).mono fun a u hu => ⟨hu.1, hu.2.1⟩)

/-! ## §3. Runs. -/

/-- Whatever is settled and depends on a field is registered. -/
def Covers (s : Session) (asked : Node → Prop) (x : Node) : Prop :=
  ∀ z r, s.view.Settled z r → s.outline.Depends z x → s.outline.Enrolled asked z

/-- The sessions that the owner of a new one can reach with updates of static
fields, with what the instances were given and which fields were asked for.
`Allows` are the names that watchers may have, `Permits` says when a field may be
updated. -/
inductive Updated (Allows : String → Prop) (Permits : Session → (Node → Prop) → Node → Prop)
    (c : Catalog) (config : Config) : Session → (Nat → Args) → (Node → Prop) → Prop
  | new (now : Int) :
      Updated Allows Permits c config (.new c config now) (fun _ => ∅) fun _ => False
  | wait {s : Session} {given : Nat → Args} {asked : Node → Prop}
      (h : Updated Allows Permits c config s given asked) (now : Int) :
      Updated Allows Permits c config { s with now } given asked
  | perform {s t : Session} {given : Nat → Args} {asked : Node → Prop} {op : Operation} {fuel : Nat}
      {a : Except Error op.Answer} (h : Updated Allows Permits c config s given asked)
      (hop : s.Plain op) (hwatch : ∀ n field watcher, op = .watch n field watcher → Allows watcher)
      (hunregister : ∀ watcher, op = .unregister watcher → ¬ c.Addresses watcher)
      (hrun : s.run fuel op = some (a, t)) :
      Updated Allows Permits c config t (s.givenAfter given op) (s.askedAfter asked op)
  /-- A static field is given a value and triggered, when everything is there
  that is referred to. -/
  | update {s t u : Session} {given : Nat → Args} {asked : Node → Prop} {x : Node} {value : Value}
      {fuel fuel' : Nat} {a b : Except Error Unit}
      (h : Updated Allows Permits c config s given asked)
      (hx : s.outline.HasStatic x) (hcomplete : s.outline.Complete) (hpermits : Permits s asked x)
      (hstore : s.run fuel (.store x.1 x.2 value) = some (a, t))
      (htrigger : t.run fuel' (.trigger x.1 x.2) = some (b, u)) :
      Updated Allows Permits c config u (givenWith given x value) asked

/-- **Every session that can be reached with updates is up to date.** -/
theorem current_of_updated (hlawful : c.Lawful) (hpure : c.ComputesPurely)
    (hready : c.ComputesReady) (hprepares : c.PreparesAlone)
    (hidentifies : c.IdentifiesByStatics)
    (h : Updated (fun watcher => ¬ c.Addresses watcher) Covers c config s given asked) :
    Current c given asked [] s.view := by
  induction h with
  | new now =>
    have hnew : Reached c config (.new c config now) fun _ => ∅ := .new now
    exact ⟨coherent_of_reached hlawful hpure hprepares hidentifies hnew, watchful_new config now⟩
  | wait _ now ih => exact ih
  | @perform s t given asked op fuel a _ hop hwatch hunregister hrun ih =>
    have ht := (current_ends hpure hprepares hidentifies ih hop hwatch hunregister).of_run hrun
    refine ⟨ht.1, ht.2.honest, ?_, ht.2.linked, ht.2.following⟩
    rintro x (hx | ⟨hasks, hx⟩)
    · exact ht.2.enrolled hx
    · exact (attached_of_asks hpure ih hx hasks hwatch).of_run hrun
  | @update s t u given asked x value fuel fuel' a b _ hx hcomplete hpermits hstore htrigger ih =>
    obtain ⟨m, spec, hx, hstatic⟩ := hx
    obtain ⟨-, ht⟩ := (store_ends hx value).of_run hstore
    obtain ⟨-, hu⟩ :=
      (trigger_given_ends hpure hready ih hx hstatic hcomplete ht).of_run htrigger
    refine ⟨ih.1.give ih.2 hx hstatic hu fun z r hset hdepends => ?_, hu.watchful ?_⟩
    · exact ih.2.attached_of_enrolled ih.1.regular.sound (hpermits z r hset hdepends)
    · exact ih.2.steady ⟨rfl, rfl⟩ (by simp)

/-! ## §4. The theorem. -/

/-- **An update leaves nothing stale.**  When everything is there that is
referred to, and a static field is given a value and triggered, the trigger
ends.  Then every registered field that depends on the value is settled with its
evaluation, and the trigger leaves alone what is settled and does not depend on
it. -/
theorem update_settles {file : Source.File} {schema : Schema} (hfile : file.Accepted schema)
    (hc : c.Over schema) (hpure : c.ComputesPurely) (hready : c.ComputesReady)
    (hprepares : c.PreparesAlone) (hidentifies : c.IdentifiesByStatics)
    (h : Updated (fun watcher => ¬ c.Addresses watcher) Covers c config s given asked)
    (hx : s.outline.HasStatic x) (hcomplete : s.outline.Complete) (value : Value) :
    ∃ fuel t fuel' u, s.run fuel (.store x.1 x.2 value) = some (.ok (), t) ∧
      t.run fuel' (.trigger x.1 x.2) = some (.ok (), u) ∧ u.outline = s.outline ∧
      (∀ z, s.outline.Enrolled asked z → s.outline.Depends z x →
        u.view.Settled z (s.evaluate (givenWith given x value) z)) ∧
      ∀ z r, t.view.Settled z r → ¬ s.outline.Depends z x → u.slot? z = t.slot? z := by
  have hcurrent := current_of_updated (hfile.lawful hc) hpure hready hprepares hidentifies h
  obtain ⟨m, spec, hx, hstatic⟩ := hx
  obtain ⟨fuel, a, t, hstore, rfl, ht⟩ := (store_ends hx value).run
  obtain ⟨fuel', a', u, htrigger, rfl, hu⟩ :=
    (trigger_given_ends hpure hready hcurrent hx hstatic hcomplete ht).run
  have ho : u.outline = s.outline := hu.steady.outline
  refine ⟨fuel, t, fuel', u, hstore, htrigger, ho, fun z hz hdepends => ?_,
    fun z r hset hnot => ?_⟩
  -- what was registered before the trigger is reached by it
  · have hattached := hcurrent.2.attached_of_enrolled hcurrent.1.regular.sound hz
    have hsettled := hcurrent.1.settled_of_depends hcurrent.2 hx hstatic hu hdepends.has hattached
      hdepends
    rw [show u.view.outline = s.outline from ho] at hsettled
    exact hsettled
  · rw [ht] at hset
    have hslot := hcurrent.1.slots_of_not_depends hx hu hset hnot
    rw [← ht] at hslot
    exact hslot

section Sample

open LazyFields.Sample

/-- What the fields of the sample are given later. -/
def freshText : Value := .string "new"

/-- The sample with both instances. -/
def hasBoth : Session := after (after start createX) (.create "r" ∅)

def hasBothGiven : Nat → Args :=
  (after start createX).givenAfter (start.givenAfter (fun _ => ∅) createX) (.create "r" ∅)

/-- Nothing was asked for. -/
def hasBothAsked : Node → Prop :=
  (after start createX).askedAfter (start.askedAfter (fun _ => False) createX) (.create "r" ∅)

section Runs

variable {Allows : String → Prop} {Permits : Session → (Node → Prop) → Node → Prop}

theorem Updated.after
    (h : Updated Allows Permits Sample.catalog ⟨1, 1, false, fun _ => none⟩ s given asked) (op : Operation)
    (hop : s.Plain op) (hwatch : ∀ n field watcher, op = .watch n field watcher → Allows watcher)
    (hunregister : ∀ watcher, op ≠ .unregister watcher) (hrun : (s.run 20 op).isSome) :
    Updated Allows Permits Sample.catalog ⟨1, 1, false, fun _ => none⟩ (Sample.after s op) (s.givenAfter given op)
      (s.askedAfter asked op) := by
  obtain ⟨_, hrun⟩ := run_after s op hrun
  exact h.perform hop hwatch (fun watcher heq => absurd heq (hunregister watcher)) hrun

end Runs

theorem updated_hasBoth (Allows : String → Prop)
    (Permits : Session → (Node → Prop) → Node → Prop) :
    Updated Allows Permits Sample.catalog ⟨1, 1, false, fun _ => none⟩ hasBoth hasBothGiven hasBothAsked := by
  have hstart : Updated Allows Permits Sample.catalog ⟨1, 1, false, fun _ => none⟩ start _ _ := .new 0
  have hx := hstart.after createX (.create (by decide +kernel)) (by simp [createX])
    (by simp [createX]) (by decide +kernel)
  exact hx.after (.create "r" ∅) (.create (by decide +kernel)) (by simp) (by simp)
    (by decide +kernel)

/-- Both instances are there, and `f` was resolved. -/
def readsF : Session := after hasBoth (.resolve 1 "f")

theorem depends_f : readsF.outline.Depends (1, "f") (0, "s") := by
  have hfg : readsF.outline.Refers (1, "f") (1, "g") := by decide +kernel
  have hgs : readsF.outline.Refers (1, "g") (0, "s") := by decide +kernel
  exact .tail (.single hfg) hgs

/-- Once `s` is updated, `f` holds the new value. -/
theorem update_settles_f : ∃ fuel t fuel' u,
    readsF.run fuel (.store 0 "s" freshText) = some (.ok (), t) ∧
      t.run fuel' (.trigger 0 "s") = some (.ok (), u) ∧ u.view.Settled (1, "f") (.ok freshText) := by
  have hreads := (updated_hasBoth (fun watcher => ¬ Sample.catalog.Addresses watcher) Covers).after (.resolve 1 "f")
    (.onField (by decide +kernel) .resolve) (by simp) (by simp) (by decide +kernel)
  obtain ⟨fuel, t, fuel', u, hstore, htrigger, -, hsettles, -⟩ :=
    update_settles (x := (0, "s")) accepted catalog_over computesPurely computesReady preparesAlone
      identifiesByStatics hreads (by decide +kernel) (by decide +kernel) freshText
  have hasked : hasBoth.askedAfter hasBothAsked (.resolve 1 "f") (1, "f") :=
    .inr ⟨rfl, by decide +kernel⟩
  have htext : isText "new" (readsF.evaluate (givenWith
      (hasBoth.givenAfter hasBothGiven (.resolve 1 "f")) (0, "s") freshText) (1, "f")) = true := by
    decide +kernel
  have hset := hsettles (1, "f") ⟨(1, "f"), hasked, .refl⟩ depends_f
  exact ⟨fuel, t, fuel', u, hstore, htrigger, eq_of_isText htext ▸ hset⟩

/-- The claim that an update leaves nothing stale, for the given names of watchers
and the given updates. -/
def UpdatesSettle (Allows : String → Prop)
    (Permits : Session → (Node → Prop) → Node → Prop) : Prop :=
  ∀ {s t u : Session} {given : Nat → Args} {asked : Node → Prop} {x : Node} {value : Value}
    {fuel fuel' : Nat} {a b : Except Error Unit},
    Updated Allows Permits Sample.catalog ⟨1, 1, false, fun _ => none⟩ s given asked → s.outline.HasStatic x →
    s.outline.Complete → s.run fuel (.store x.1 x.2 value) = some (a, t) →
    t.run fuel' (.trigger x.1 x.2) = some (b, u) →
    ∀ z, s.outline.Enrolled asked z → s.outline.Depends z x →
      u.view.Settled z (s.evaluate (givenWith given x value) z)

/-- What a field is not settled with. -/
theorem not_settled {z : Node} (text text' : String) {r : Outcome} (hne : text ≠ text')
    (hr : isText text r = true) (hresult : (s.view.result? z).any (isText text') = true) :
    ¬ s.view.Settled z r := by
  intro hset
  rw [hset.result?, Option.any_some, eq_of_isText hr] at hresult
  exact hne (of_decide_eq_true hresult)

/-- The field `s` is watched under the name of the field `g`, and `f` is
resolved. -/
def posesAsG : Session := after (after hasBoth (.watch 0 "s" "r\x00\x00g")) (.resolve 1 "f")

/-- A watcher that poses as a field keeps it stale: it is told of the new value in
the place of `g`. -/
theorem not_updatesSettle_of_posing : ¬ UpdatesSettle (fun _ => True) Covers := by
  intro h
  have hposes := (updated_hasBoth (fun _ => True) Covers).after
    (.watch 0 "s" "r\x00\x00g") (.onField (by decide +kernel) (.watch _))
    (fun _ _ _ _ => trivial) (by simp) (by decide +kernel)
  have hreads : Updated (fun _ => True) Covers Sample.catalog ⟨1, 1, false, fun _ => none⟩ posesAsG _ _ :=
    hposes.after (.resolve 1 "f") (.onField (by decide +kernel) .resolve) (by simp)
      (by simp) (by decide +kernel)
  obtain ⟨_, hstore⟩ := run_after posesAsG (.store 0 "s" freshText)
    (by decide +kernel)
  obtain ⟨_, htrigger⟩ := run_after (after posesAsG (.store 0 "s" freshText)) (.trigger 0 "s") (by decide +kernel)
  have hfg : posesAsG.outline.Refers (1, "f") (1, "g") := by decide +kernel
  have hgs : posesAsG.outline.Refers (1, "g") (0, "s") := by decide +kernel
  have hset := h (x := (0, "s")) hreads (by decide +kernel) (by decide +kernel) hstore htrigger
    (1, "f") ⟨(1, "f"), .inr ⟨rfl, by decide +kernel⟩, .refl⟩ (.tail (.single hfg) hgs)
  exact not_settled "new" "v" (by decide) (by decide +kernel)
    (by decide +kernel) hset

/-- The field `s` is updated while `g` is computed but not registered. -/
def computesG : Session := after hasBoth (.compute 1 "g")

def storesS : Session := after computesG (.store 0 "s" freshText)

def updatesS : Session := after storesS (.trigger 0 "s")

/-- Then `h` is resolved, and with it `g` is registered. -/
def readsH : Session := after updatesS (.resolve 1 "h")

/-- An update that comes before a field is registered leaves it stale: `h` is
computed again from what `g` was. -/
theorem not_updatesSettle_of_unregistered :
    ¬ UpdatesSettle (fun watcher => ¬ Sample.catalog.Addresses watcher) fun _ _ _ => True := by
  intro h
  have hcomputes : Updated (fun watcher => ¬ Sample.catalog.Addresses watcher) (fun _ _ _ => True)
      Sample.catalog ⟨1, 1, false, fun _ => none⟩ computesG _ _ :=
    (updated_hasBoth _ _).after (.compute 1 "g") (.onField (by decide +kernel) .compute) (by simp)
      (by simp) (by decide +kernel)
  obtain ⟨_, hstoreS⟩ := run_after computesG (.store 0 "s" freshText)
    (by decide +kernel)
  obtain ⟨_, htriggerS⟩ := run_after storesS (.trigger 0 "s") (by decide +kernel)
  have hupdates : Updated (fun watcher => ¬ Sample.catalog.Addresses watcher) (fun _ _ _ => True)
      Sample.catalog ⟨1, 1, false, fun _ => none⟩ updatesS _ _ :=
    hcomputes.update (x := (0, "s")) (by decide +kernel) (by decide +kernel) trivial hstoreS
      htriggerS
  have hreads : Updated (fun watcher => ¬ Sample.catalog.Addresses watcher) (fun _ _ _ => True)
      Sample.catalog ⟨1, 1, false, fun _ => none⟩ readsH _ _ :=
    hupdates.after (.resolve 1 "h") (.onField (by decide +kernel) .resolve) (by simp)
      (by simp) (by decide +kernel)
  obtain ⟨_, hstore⟩ := run_after readsH (.store 0 "t" freshText) (by decide +kernel)
  obtain ⟨_, htrigger⟩ := run_after (after readsH (.store 0 "t" freshText)) (.trigger 0 "t") (by decide +kernel)
  have hht : readsH.outline.Refers (1, "h") (0, "t") := by decide +kernel
  have hset := h (x := (0, "t")) hreads (by decide +kernel) (by decide +kernel) hstore htrigger
    (1, "h") ⟨(1, "h"), .inr ⟨rfl, by decide +kernel⟩, .refl⟩ (.single hht)
  -- the field still holds the old text
  exact not_settled "new" "v" (by decide) (by decide +kernel)
    (by decide +kernel) hset

/-- **Without either condition an update may leave something stale.** -/
theorem updates_leave_stale : ¬ UpdatesSettle (fun _ => True) Covers ∧
    ¬ UpdatesSettle (fun watcher => ¬ Sample.catalog.Addresses watcher) (fun _ _ _ => True) :=
  ⟨not_updatesSettle_of_posing, not_updatesSettle_of_unregistered⟩

end Sample

end Session

end LazyFields
