/-
  LazyFields.Proofs.Session.Firing
  ────────────────────────────────
  **ONE TRIGGER, ONE REPORT.**

  A trigger runs the callbacks that watch a field, by name of the watcher, each
  once.  A report is not the first of them, as a rule: before it fields are
  computed again, and each of them triggers its own watchers, who may come back to
  the field.  So that there is still something to report, a field that has a
  result must not lose it on the way.

    · `View.Keeps` — every field that had a result has one
    · `keeping_perform` — computing, computing again and triggering keep it,
      whatever the watch graph looks like and however deep triggers nest
    · `ReportsOnce` — a run of the callbacks of a field, cut at one report
    · `reportsOnce_of_fire` — every trigger that ends is such a run
    · `fire_regular_ends` — where nothing is under way and only fields watch their
      references, every trigger ends
-/
import LazyFields.Proofs.Session.Conclusion
import LazyFields.Proofs.Session.Refusal
import LazyFields.Proofs.Session.Trigger

namespace LazyFields

/-! ## §1. Results that stay. -/

/-- A key of a table is the key of one entry. -/
theorem Table.entries_eq_append {α : Type} {table : Table α} {k : String} {v : α}
    (h : table.get? k = some v) :
    ∃ before after, table.entries = before ++ (k, v) :: after
      ∧ k ∉ (before ++ after).map Prod.fst := by
  obtain ⟨before, after, hentries⟩ := List.append_of_mem (get?_eq_some_iff_mem.1 h)
  refine ⟨before, after, hentries, ?_⟩
  have hnodup : ((before ++ (k, v) :: after).map Prod.fst).Nodup := hentries ▸ table.nodup_keys
  have hmiddle := (List.perm_middle.map Prod.fst).nodup_iff.1 hnodup
  exact (List.nodup_cons.1 hmiddle).1

namespace View

variable {u v w : View} {x : Node}

/-- Every field that had a result has one, perhaps another one. -/
structure Keeps (v w : View) : Prop where
  outline : w.outline = v.outline
  result : ∀ x, (v.result? x).isSome = true → (w.result? x).isSome = true

theorem Keeps.refl (v : View) : v.Keeps v := ⟨rfl, fun _ => id⟩

/-- Keeping, and keeping again. -/
theorem Keeps.trans (h : u.Keeps v) (k : v.Keeps w) : u.Keeps w :=
  ⟨k.outline.trans h.outline, fun x hx => k.result x (h.result x hx)⟩

/-- Fields are as they were, or finished. -/
theorem Keeps.of_slots (houtline : w.outline = v.outline)
    (hslots : ∀ x, w.slots x = v.slots x ∨ w.Finished x) : v.Keeps w := by
  refine ⟨houtline, fun x hx => ?_⟩
  rcases hslots x with hslot | hfinished
  · rwa [result?_congr hslot]
  · obtain ⟨r, hr⟩ := hfinished.result?
    rw [hr]
    rfl

/-- A view that advances keeps. -/
theorem Advances.keeps (h : v.Advances w) : v.Keeps w :=
  .of_slots h.outline fun x => (h.slots x).imp_right And.right

/-- While a field is claimed others are finished.  In the end it gets back what it held,
or an entry that leaves nothing to compute. -/
theorem Keeps.of_claimed {previous : Option Entry}
    (h : (v.put x (some (.computing previous))).Advances w) {sl : Option Slot}
    (hsl : sl = v.slots x ∨ ∃ e, sl = some (.stored e) ∧ e.isSettled = true) :
    v.Keeps (w.put x sl) := by
  refine .of_slots h.outline fun y => ?_
  by_cases hy : y = x
  · subst hy
    rw [put_slots_self]
    refine hsl.imp_right fun ⟨e, he, hsettled⟩ => ⟨e, ?_, hsettled⟩
    exact (put_slots_self ..).trans he
  · rw [put_slots_ne w hy]
    refine (h.slots y).imp (fun hslot => hslot.trans (put_slots_ne v hy _)) fun hchanged => ?_
    exact hchanged.2.congr (put_slots_ne w hy sl)

end View

/-! ## §2. Cascades keep results. -/

namespace Action

variable {α β : Type} {a : Action α} {f : α → Action β} {s t : Session}

/-- Whatever the action answers, every field that had a result has one. -/
def Keeping (a : Action α) (s : Session) : Prop := a.Returns s fun _ t => s.view.Keeps t.view

namespace Keeping

/-- The second action starts where the first one ended. -/
theorem bind (h : a.Keeping s) (k : ∀ x t, s.view.Keeps t.view → (f x).Keeping t) :
    (a >>= f).Keeping s := by
  refine Returns.bind h (fun x t ht => ?_) fun _ _ ht => ht
  exact (k x t ht).mono fun _ _ hu => ht.trans hu

/-- An attempt keeps if the action does. -/
theorem attempt (h : a.Keeping s) : (Action.attempt a).Keeping s := Returns.attempt h

theorem ignore (h : a.Keeping s) : (Action.ignore a).Keeping s :=
  h.attempt.bind fun _ t _ => .of_runOn (runOn_pure () t) (.refl _)

/-- After a step that is not seen the rest has to keep. -/
theorem next {x : α} (h : a.runOn s = some (.ok x, t)) (k : (f x).Keeping t)
    (hview : t.view = s.view) : (a >>= f).Keeping s :=
  Returns.next h (k.mono fun _ _ hu => hview ▸ hu)

/-- An answer keeps. -/
theorem ofResult (r : Except Error α) (s : Session) : (Action.ofResult r).Keeping s :=
  .of_runOn (runOn_ofResult r s) (.refl _)

theorem pure (x : α) (s : Session) : (Pure.pure x : Action α).Keeping s := ofResult (.ok x) s

/-- A loop whose steps keep results. -/
theorem forM {f : β → Action Unit} {o : Outline} (h : ∀ x (s : Session), s.view.outline = o →
    (f x).Keeping s) (xs : List β) : ∀ s : Session, s.view.outline = o → (xs.forM f).Keeping s := by
  induction xs with
  | nil => exact fun s _ => pure () s
  | cons x xs ih =>
    intro s hs
    exact (h x s hs).bind fun _ t ht => ih t (ht.outline.trans hs)

end Keeping

end Action

namespace Session

open LazyFields.Action

variable {s t u : Session} {x : Node} {n : Nat} {i : Instance} {m : Member} {spec : FieldSpec}
  {o : Outline} {field address watcher : String}

/-- Computing a field keeps what is there. -/
theorem keeping_compute (ho : s.view.outline.Standing) (fuel n : Nat) (field : String) :
    (perform fuel (.compute n field)).Keeping s := by
  intro a t hrun
  exact (advances_of_compute (x := (n, field)) ho hrun).1.keeps

/-- What the references of a claimed field come to: fields were finished, and a reference
that is not ready has not failed. -/
def Collected (s : Session) (x : Node) (g : Gathered) (t : Session) : Prop :=
  ∃ previous : Option Entry, (s.view.put x (some (.computing previous))).Advances t.view
    ∧ ∀ e, g = .failed e → e ≠ .notReady

/-- What computing a field again comes to. -/
theorem recompute_keeps (ho : s.view.outline.Standing) (hi : s.instance? x.1 = some i) :
    Ends (fun call => call (.recompute x.1 x.2)) s fun _ t => s.view.Keeps t.view := by
  refine .call ?_
  show Ends (fun call => computeField call x.1 x.2 true) s _
  cases hfield : i.kind.info.field? x.2 with
  | none =>
    unfold computeField
    exact .stop (runOn_declared_of_none hi hfield) (.refl _)
  | some spec =>
    cases hcomputed : spec.isStatic with
    | true =>
      unfold computeField
      refine .next (runOn_declared hi hfield) ?_
      simp only [hcomputed, if_true]
      exact .pure (.refl _)
    | false =>
      have hm : s.view.outline.member? x.1 = some i.member := member?_of_instance hi
      -- the references are settled while the claim is held
      have hexits : Ends (fun call => computeField call x.1 x.2 true) s
          (s.Exits x i.member spec true (s.Collected x)) :=
        computeField_exits hi hfield hcomputed (ho.alone hm)
        (fun ⟨_, _, hfailed⟩ => hfailed _ rfl) fun previous _ => by
          have hview := view_setSlot hi x.2 (some (.computing previous))
          have houtline := congrArg View.outline hview
          refine (gather_gathers spec.refs _ (houtline ▸ ho) (houtline ▸ hm)).mono ?_
          rintro a t ⟨hadvances, g, rfl, hgathers⟩
          refine ⟨hview ▸ hadvances, g, rfl, previous, hview ▸ hadvances, ?_⟩
          rintro e rfl
          cases hgathers with
          | failed hopen haim hy he => exact he
      refine hexits.mono fun a t h => ?_
      cases h with
      | busy | ready => exact .refl _
      | blocked hopen hgathered hu =>
        obtain ⟨previous, hadvances, -⟩ := hgathered
        exact hu ▸ .of_claimed hadvances (.inl rfl)
      | unready hopen hgathered hu =>
        obtain ⟨previous, hadvances, -⟩ := hgathered
        exact hu ▸ .of_claimed hadvances (.inl rfl)
      | failed hgathered now hu =>
        obtain ⟨previous, hadvances, -⟩ := hgathered
        exact hu ▸ .of_claimed hadvances (.inr ⟨_, rfl, rfl⟩)
      | stored hgathered hr houtcome now hu hjournal =>
        obtain ⟨previous, hadvances, -⟩ := hgathered
        refine hu ▸ .of_claimed hadvances (.inr ⟨_, rfl, ?_⟩)
        exact Entry.isSettled_of_result? (Entry.result?_ofOutcome _ now)

/-- So does computing it again: what it had is there until the new result is. -/
theorem keeping_recompute (ho : s.view.outline.Standing) (hi : s.instance? n = some i)
    (fuel : Nat) (field : String) : (perform fuel (.recompute n field)).Keeping s := by
  intro a t hrun
  exact (recompute_keeps (x := (n, field)) ho hi).of_run hrun

/-- A follow-up keeps results, if the triggers within it do. -/
theorem keeping_runFollowUp (ho : o.Standing) {fuel : Nat}
    (htrigger : ∀ (s : Session) n field, s.view.outline = o →
      (perform fuel (.trigger n field)).Keeping s)
    (f : FollowUp) (s : Session) (hs : s.view.outline = o) :
    (runFollowUp (perform fuel) f).Keeping s := by
  -- an instance that is not there gives no answer at all
  have hnone : ∀ {n}, s.instance? n = none → ∀ {β : Type} (g : Instance → Action β),
      (getInstance n >>= g).Keeping s := by
    intro n hi β g r t hrun
    simp [runOn_bind, runOn_getInstance_of_none hi] at hrun
  cases f with
  | report n field watcher =>
    cases hi : s.instance? n with
    | none => exact hnone hi _
    | some i =>
      refine .next (runOn_getInstance hi) ?_ rfl
      split
      · exact .pure () s
      · exact .of_runOn (runOn_note _) (.refl _)
  | recompute n field =>
    cases hi : s.instance? n with
    | none => exact hnone hi _
    | some i =>
      refine .next (runOn_getInstance hi) ?_ rfl
      split
      · exact .pure () s
      · refine (keeping_recompute (hs ▸ ho) hi fuel field).attempt.bind fun a t ht => ?_
        split
        · exact .pure () t
        · exact (htrigger t n field (ht.outline.trans hs)).ignore

/-- **Triggers keep results,** by induction on how deep they nest. -/
theorem keeping_perform (ho : o.Standing) (fuel : Nat) :
    (∀ (s : Session) address, s.view.outline = o → (perform fuel (.fire address)).Keeping s)
      ∧ ∀ (s : Session) n field, s.view.outline = o →
        (perform fuel (.trigger n field)).Keeping s := by
  induction fuel with
  | zero =>
    constructor
    · intro s address _ r t hrun
      simp [perform] at hrun
    · intro s n field _ r t hrun
      simp [perform] at hrun
  | succ fuel ih =>
    obtain ⟨hfire, htrigger⟩ := ih
    have hfired : ∀ (s : Session) address, s.view.outline = o →
        (do let _ ← perform fuel (.fire address); pure () : Action Unit).Keeping s :=
      fun s address hs => (hfire s address hs).bind fun _ t _ => .pure () t
    constructor
    · intro s address hs
      refine .next runOn_get ?_ rfl
      exact (Keeping.forM (keeping_runFollowUp ho htrigger) _ s hs).bind fun _ t _ => .pure _ t
    · intro s n field hs
      show (trigger (perform fuel) n field).Keeping s
      unfold trigger
      split
      · exact .ofResult (.error _) s
      · cases hi : s.instance? n with
        | none =>
          intro r t hrun
          simp [runOn_bind, runOn_getInstance_of_none hi] at hrun
        | some i =>
          refine .next (runOn_getInstance hi) ?_ rfl
          split
          · exact hfired s _ hs
          · exact hfired s _ hs
          · exact .ofResult (.error _) s
          · -- an unset field is computed before its watchers run
            refine (keeping_compute (hs ▸ ho) fuel n field).bind fun _ t ht => ?_
            have hm : t.view.outline.member? n = some i.member :=
              ht.outline ▸ member?_of_instance hi
            obtain ⟨j, hj, -⟩ := instance_of_member? hm
            refine .next (runOn_getInstance hj) ?_ rfl
            split
            · exact hfired t _ (ht.outline.trans hs)
            · exact .pure () t

/-! ## §3. The callbacks of one trigger. -/

/-- The follow-ups are run one after the other, from the first session to the second one,
each with operations that nest less than `fuel` deep. -/
def RunsAll (fuel : Nat) (fs : List FollowUp) (s t : Session) : Prop :=
  (fs.forM (runFollowUp (perform fuel))).runOn s = some (.ok (), t)

/-- From the first session to the second one all callbacks are run that watch the address
now, each once.  The one of the watcher is a report of the field: it is given the result
that the field has at that moment. -/
def ReportsOnce (fuel : Nat) (address watcher : String) (x : Node) (s t : Session) : Prop :=
  ∃ before after mid r,
    (s.watches.callbacks address).entries = before ++ (watcher, .report x.1 x.2 watcher) :: after
      ∧ watcher ∉ (before ++ after).map Prod.fst
      ∧ RunsAll fuel (before.map Prod.snd) s mid
      ∧ mid.view.result? x = some r
      ∧ RunsAll fuel (after.map Prod.snd) (mid.record (.reported watcher r)) t

/-- Running some follow-ups and then others is running both lists. -/
theorem runsAll_append {fuel : Nat} {fs gs : List FollowUp} :
    RunsAll fuel (fs ++ gs) s t ↔ ∃ mid, RunsAll fuel fs s mid ∧ RunsAll fuel gs mid t := by
  have happend : (fs ++ gs).forM (runFollowUp (perform fuel))
      = fs.forM (runFollowUp (perform fuel)) >>= fun _ => gs.forM (runFollowUp (perform fuel)) :=
    List.forM_append
  unfold RunsAll
  rw [happend]
  constructor
  · intro h
    obtain ⟨_, mid, hfirst, hsecond⟩ := oks_of_runOn_bind h
    exact ⟨mid, hfirst, hsecond⟩
  · rintro ⟨mid, hfirst, hsecond⟩
    rw [runOn_bind_ok hfirst]
    exact hsecond

/-- A report gives the watcher the result that the field has. -/
theorem runOn_report {call : Performer} {r : Outcome}
    (hm : s.view.outline.member? x.1 = some m) (hkept : m.discarded = false)
    (hr : s.view.result? x = some r) :
    (runFollowUp call (.report x.1 x.2 watcher)).runOn s
      = some (.ok (), s.record (.reported watcher r)) := by
  obtain ⟨i, hi, rfl⟩ := instance_of_member? hm
  have hresult : i.cache.result? x.2 = some r := (result?_of_instance hi x.2).symm.trans hr
  have hdiscarded : i.discarded = false := hkept
  rw [runFollowUp, runOn_bind_ok (runOn_getInstance hi), hdiscarded]
  simp only [Bool.false_eq_true, if_false, hresult, Option.getD_some, runOn_note]

/-- A report of a cached result goes to the journal at once. -/
theorem runsAll_report {fuel : Nat} {fs : List FollowUp} {r : Outcome}
    (hm : s.view.outline.member? x.1 = some m) (hkept : m.discarded = false)
    (hr : s.view.result? x = some r) (h : RunsAll fuel (.report x.1 x.2 watcher :: fs) s t) :
    RunsAll fuel fs (s.record (.reported watcher r)) t := by
  obtain ⟨_, mid, hfirst, hsecond⟩ := oks_of_runOn_bind h
  cases (runOn_report hm hkept hr).symm.trans hfirst
  exact hsecond

/-- **Every trigger that ends reports once.**  A watcher that listens to a field with a
result is told its result, once, whatever else the trigger sets off. -/
theorem reportsOnce_of_fire (ho : s.view.outline.Standing)
    (hm : s.view.outline.member? x.1 = some m) (hkept : m.discarded = false)
    (hlistens : (s.watches.callbacks address).get? watcher = some (.report x.1 x.2 watcher))
    (hresult : (s.view.result? x).isSome = true) {fuel : Nat} {a : Except Error Nat}
    (hrun : s.run (fuel + 1) (.fire address) = some (a, t)) :
    ReportsOnce fuel address watcher x s t := by
  obtain ⟨before, after, hentries, honce⟩ := Table.entries_eq_append hlistens
  have hall : RunsAll fuel ((before ++ (watcher, .report x.1 x.2 watcher) :: after).map Prod.snd)
      s t := by
    rw [← hentries]
    change (fire (perform fuel) address).runOn s = _ at hrun
    unfold fire at hrun
    rw [runOn_bind_ok runOn_get] at hrun
    -- no callback fails, so the loop ran to its end
    rcases parts_of_runOn_bind hrun with ⟨_, t', hloop, hlength⟩ | ⟨e, hloop, -⟩
    · cases hlength
      exact hloop
    · exact absurd hloop (Unfailing.forM (unfailing_runFollowUp _) s e t)
  rw [List.map_append, runsAll_append] at hall
  obtain ⟨mid, hbefore, hrest⟩ := hall
  -- whatever the callbacks before the report do, the field has a result when its turn comes
  have hkeeps := Keeping.forM (keeping_runFollowUp ho (keeping_perform ho fuel).2) _ s rfl _ _
    hbefore
  obtain ⟨r, hr⟩ := Option.isSome_iff_exists.1 (hkeeps.result x hresult)
  exact ⟨before, after, mid, r, hentries, honce, hbefore, hr,
    runsAll_report (hkeeps.outline ▸ hm) hkept hr hrest⟩

/-! ## §4. Triggers that end. -/

/-- A regular view stays regular through every cascade. -/
theorem cascade_regular : Cascade (fun _ => True) (fun _ _ _ => True) fun _ v => v.Regular where
  regular h := h
  closed _ := ⟨fun _ _ _ _ => trivial, fun _ _ _ => trivial, fun _ _ _ _ => trivial⟩
  scope _ := trivial
  fills h hfills := h.fills hfills
  report h := h
  stalls h _ _ := h
  reruns h hx hcomputed hfills _ hr now :=
    (h.fills hfills).put ⟨_, _, hfills.outline ▸ hx, hcomputed⟩ hr now

/-- **Where nothing is under way every trigger ends,** if fields are computed again only
by what they refer to. -/
theorem fire_regular_ends (h : s.view.Regular) (address : String) :
    ∃ fuel a t, s.run fuel (.fire address) = some (a, t) := by
  obtain ⟨fuel, a, t, hrun, -⟩ := (@fire_ends _ _ _ s cascade_regular [] address h).run
  exact ⟨fuel, a, t, hrun⟩

end Session

end LazyFields
