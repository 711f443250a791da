/-
  LazyFields.Proofs.Session.Register
  ────────────────────────────────
  **REGISTERING, WATCHING, READING AND RESOLVING.**

  A field that is registered watches all its references.  Whoever is the first
  to watch a field registers and computes that one too, so registering walks
  down the references, and ends since their ranks fall (`register_ends`).

  Every operation here takes an invariant of a `Protocol` from the tasks that
  are pending back to the same tasks.
-/
import LazyFields.Proofs.Session.Trigger

namespace LazyFields.Session

open LazyFields.Action

variable {Allows : String → Prop} {V : View → Node → Outcome → Prop}
  {J : List Task → View → Prop} {s : Session} {x : Node} {m : Member} {spec : FieldSpec}
  {tasks : List Task}

section Protocol

variable (P : Protocol Allows V J)

include P

/-! ## §1. Computing between operations. -/

theorem compute_task_ends (h : J tasks s.view) (hx : s.view.outline.Has x) :
    Ends (fun call => call (.compute x.1 x.2)) s fun a t =>
      s.view.Fills (fun _ => True) (V s.view) t.view ∧ Attempted (V s.view) x a t.view :=
  have hregular := P.regular h
  compute_ends hregular.sound hregular.alone hregular.stocked hregular.quiet (P.closed h) hx trivial

/-! ## §2. Registering. -/

/-- A registration of `x`, on any session of the outline and whatever is
pending. -/
def Registers (J : List Task → View → Prop) (o : Outline) (x : Node) : Prop :=
  ∀ (s : Session) (tasks : List Task), s.view.outline = o → J tasks s.view →
    Ends (fun call => call (.register x.1 x.2)) s fun a t =>
      a = .ok () ∧ J tasks t.view ∧ s.view.Extends t.view ∧ t.view.Attached x

/-- A field watches one of its references. -/
theorem follow_ends (h : J tasks s.view) (htask : .enlist x ∈ tasks)
    (hx : s.view.outline.Declares x m spec) {reference : String} (href : reference ∈ spec.refs)
    (ih : ∀ y, s.view.outline.target x.1 reference = some y → Registers J s.view.outline y) :
    Ends (fun call => follow call ⟨(s.view.outline.target x.1 reference).map Prod.fst,
        (referent m.kind.name reference).2, m.targetAddress reference⟩ x.1 x.2) s fun a t =>
      a = .ok () ∧ J tasks t.view ∧ s.view.Extends t.view
        ∧ ∃ f, (t.view.callbacks (m.targetAddress reference)).get? (m.address x.2) = some f := by
  obtain ⟨i, hi, rfl⟩ := instance_of_member? hx.member
  have hsound := (P.regular h).sound
  have hJ := P.follows h htask hx href
  -- the session after the watch
  let t : Session := { s with
    watches := (s.watches.watch (i.member.targetAddress reference) (i.fieldAddress x.2)
      (.recompute x.1 x.2)).2 }
  have ht : t.view = s.view.watch (i.member.targetAddress reference) (i.member.address x.2)
      (.recompute x.1 x.2) := rfl
  have hextends : s.view.Extends t.view := View.extends_watch
  have hwatched : ∃ f, (t.view.callbacks (i.member.targetAddress reference)).get?
      (i.member.address x.2) = some f := WatchGraph.exists_get?_callbacks_watch
  rw [← ht] at hJ
  unfold follow
  refine .next (runOn_getInstance hi) (.next runOn_get (.next (runOn_set t) ?_))
  rw [View.firstWatch] at hJ
  by_cases hfirst : (s.view.callbacks (i.member.targetAddress reference)).isEmpty = true
  · have hempty : (s.watches.callbacks (i.member.targetAddress reference)).isEmpty = true := hfirst
    have hnew : (s.watches.callbacks (i.member.targetAddress reference)).contains
        (i.fieldAddress x.2) = false := by
      rw [Table.contains, Table.isEmpty_iff.1 hempty]
      rfl
    rw [if_pos hfirst] at hJ
    simp only [hempty, hnew, Bool.not_true, Bool.or_self, Bool.false_eq_true, if_false]
    cases htarget : s.view.outline.target x.1 reference with
    | none =>
      rw [htarget] at hJ
      exact .pure ⟨rfl, hJ, hextends, hwatched⟩
    | some y =>
      rw [htarget] at hJ
      obtain ⟨m', spec', hy, -, hname⟩ := hsound.has_target hx href htarget
      simp only [Option.map_some]
      rw [hname]
      refine .bind_ok (ih y htarget t (.attach y :: tasks) rfl hJ) ?_
      rintro u ⟨hJu, hextu, hattached⟩
      have hhas : u.view.outline.Has y := ⟨m', spec', hextu.outline ▸ hy⟩
      refine .ignore ((compute_task_ends P hJu hhas).mono ?_)
      rintro a w ⟨hfills, hattempted⟩
      have hext := hextu.trans hfills.steady.extends
      obtain ⟨f, hf⟩ := hwatched
      exact ⟨rfl, P.attached hJu hattached hfills hattempted, hextends.trans hext,
        f, hext.callbacks hf⟩
  · have hold : (s.watches.callbacks (i.member.targetAddress reference)).isEmpty = false :=
      Bool.eq_false_iff.2 hfirst
    rw [if_neg hfirst] at hJ
    simp only [hold, Bool.not_false, Bool.or_true, if_true]
    exact .pure ⟨rfl, hJ, hextends, hwatched⟩

/-- Registering a field, given how what it refers to is registered. -/
theorem register_step_ends (h : J tasks s.view) (hx : s.view.outline.Declares x m spec)
    (ih : ∀ reference ∈ spec.refs, ∀ y, s.view.outline.target x.1 reference = some y →
      Registers J s.view.outline y) :
    Ends (fun call => call (.register x.1 x.2)) s fun a t =>
      a = .ok () ∧ J tasks t.view ∧ s.view.Extends t.view ∧ t.view.Attached x := by
  obtain ⟨i, hi, rfl⟩ := instance_of_member? hx.member
  have hsound := (P.regular h).sound
  refine .call ?_
  show Ends (fun call => register call x.1 x.2) s _
  unfold register
  refine .next (runOn_declared hi hx.field) ?_
  cases hrefs : spec.refs.isEmpty with
  | true =>
    simp only [if_true]
    refine .pure ⟨rfl, h, .refl _, ?_⟩
    intro m' spec' hx' reference href
    obtain ⟨rfl, rfl⟩ := hx.eq hx'
    simp [List.isEmpty_iff.1 hrefs] at href
  | false =>
    simp only [Bool.false_eq_true, if_false]
    refine .next (runOn_requireLive hi hsound.live) ?_
    -- while the references are watched, the registration is a pending task
    have hloop := Ends.forM
      (f := fun reference call => do
        let target ← targetOf x.1 reference
        follow call target x.1 x.2)
      (I := fun left t => J (.enlist x :: tasks) t.view ∧ s.view.Extends t.view
        ∧ ∃ done, done ++ left = spec.refs ∧ ∀ reference ∈ done, ∃ f,
          (t.view.callbacks (i.member.targetAddress reference)).get? (i.member.address x.2)
            = some f)
      (Q := fun a t => a = .ok () ∧ J tasks t.view ∧ s.view.Extends t.view ∧ t.view.Attached x)
    refine hloop ?_ ?_ spec.refs s ⟨P.enlist h ⟨i.member, spec, hx⟩, .refl _, [], rfl, by simp⟩
    · rintro reference left t ⟨hJ, hext, done, hdone, hwatched⟩
      have href : reference ∈ spec.refs := by
        rw [← hdone]
        simp
      have hx' : t.view.outline.Declares x i.member spec := hext.outline ▸ hx
      refine .next (runOn_targetOf (P.regular hJ).sound hx' href) ?_
      refine (follow_ends P hJ List.mem_cons_self hx' href ?_).mono ?_
      · rw [hext.outline]
        exact ih reference href
      · rintro a u ⟨ha, hJu, hextu, hf⟩
        refine ⟨ha, hJu, hext.trans hextu, done ++ [reference], by simp [hdone], ?_⟩
        intro reference' href'
        rcases List.mem_append.1 href' with href' | href'
        · obtain ⟨f, hf⟩ := hwatched reference' href'
          exact ⟨f, hextu.callbacks hf⟩
        · obtain rfl : reference' = reference := by simpa using href'
          exact hf
    · rintro t ⟨hJ, hext, done, hdone, hwatched⟩
      obtain rfl : done = spec.refs := by simpa using hdone
      have hattached : t.view.Attached x := by
        intro m' spec' hx' reference href
        rw [hext.outline] at hx'
        obtain ⟨rfl, rfl⟩ := hx.eq hx'
        exact hwatched reference href
      exact ⟨rfl, P.enlisted hJ hattached, hext, hattached⟩

/-- **Registering a field** makes it watch all its references.  By induction on
the rank. -/
theorem registers {o : Outline} (ho : o.Sound) (hx : o.Has x) : Registers J o x := by
  obtain ⟨rank, hrank⟩ := ho.lawful.ranked
  induction hk : o.rank rank x using Nat.strongRecOn generalizing x with
  | ind k ih =>
    rintro s tasks rfl h
    obtain ⟨m, spec, hx⟩ := hx
    refine register_step_ends P h hx fun reference href y htarget => ?_
    have hlt := ho.rank_target hrank hx href htarget
    exact ih _ (by omega) (ho.has_of_target hx href htarget) rfl

theorem register_ends (h : J tasks s.view) (hx : s.view.outline.Has x) :
    Ends (fun call => call (.register x.1 x.2)) s fun a t =>
      a = .ok () ∧ J tasks t.view ∧ s.view.Extends t.view ∧ t.view.Attached x :=
  registers P (P.regular h).sound hx s tasks rfl h

/-! ## §3. Watching. -/

/-- **Watching a field** under an allowed name. -/
theorem watch_ends (h : J tasks s.view) (hx : s.view.outline.Declares x m spec) {watcher : String}
    (hallowed : Allows watcher) :
    Ends (fun call => call (.watch x.1 x.2 watcher)) s fun a t =>
      a = .ok () ∧ J tasks t.view ∧ s.view.Extends t.view
        ∧ (t.view.Watched (m.address x.2)) := by
  obtain ⟨i, hi, rfl⟩ := instance_of_member? hx.member
  have hJ := P.watches h hx hallowed
  let t : Session := { s with
    watches := (s.watches.watch (i.fieldAddress x.2) watcher (.report x.1 x.2 watcher)).2 }
  have ht : t.view = s.view.watch (i.member.address x.2) watcher (.report x.1 x.2 watcher) := rfl
  have hextends : s.view.Extends t.view := View.extends_watch
  have hwatched : t.view.Watched (i.member.address x.2) :=
    ⟨watcher, WatchGraph.exists_get?_callbacks_watch⟩
  rw [← ht, View.firstWatch] at hJ
  refine .call ?_
  show Ends (fun call => watchField call x.1 x.2 watcher) s _
  unfold watchField
  refine .next (runOn_declared hi hx.field) (.next (runOn_getInstance hi) (.next runOn_get
    (.next (runOn_set t) ?_)))
  by_cases hfirst : (s.view.callbacks (i.member.address x.2)).isEmpty = true
  · have hempty : (s.watches.callbacks (i.fieldAddress x.2)).isEmpty = true := hfirst
    have hnew : (s.watches.callbacks (i.fieldAddress x.2)).contains watcher = false := by
      rw [Table.contains, Table.isEmpty_iff.1 hempty]
      rfl
    rw [if_pos hfirst] at hJ
    simp only [hempty, hnew, Bool.false_eq_true, if_false, if_true]
    -- the first watcher has the field registered and computed
    refine .bind_ok (register_ends P (s := t) hJ ⟨i.member, spec, hx⟩) ?_
    rintro u ⟨hJu, hextu, hattached⟩
    have hx' : u.view.outline.Declares x i.member spec := hextu.outline ▸ hx
    have hcompute := compute_task_ends P hJu ⟨i.member, spec, hx'⟩
    refine .attempt_bind hcompute ?_
    rintro a w ⟨hfills, hattempted⟩
    have hJw := P.attached hJu hattached hfills hattempted
    have hextw := hextu.trans hfills.steady.extends
    have hmember : w.view.outline.member? x.1 = some i.member := hextw.outline ▸ hx.member
    have hreport : Ends (fun call => runFollowUp call (.report x.1 x.2 watcher)) w
        fun a u => a = .ok () ∧ J tasks u.view ∧ s.view.Extends u.view
          ∧ u.view.Watched (i.member.address x.2) := by
      refine (report_ends hmember).mono ?_
      rintro a u ⟨ha, hu⟩
      rw [hu]
      exact ⟨ha, hJw, hextends.trans hextw, hextw.watched hwatched⟩
    cases a with
    | ok _ => exact hreport
    | error e =>
      cases e with
      | notReady => exact .pure ⟨rfl, hJw, hextends.trans hextw, hextw.watched hwatched⟩
      | _ => exact hreport
  · have hold : (s.watches.callbacks (i.fieldAddress x.2)).isEmpty = false :=
      Bool.eq_false_iff.2 hfirst
    rw [if_neg hfirst] at hJ
    cases halready : (s.watches.callbacks (i.fieldAddress x.2)).contains watcher with
    | true =>
      simp only [if_true]
      exact .pure ⟨rfl, hJ, hextends, hwatched⟩
    | false =>
      -- a later one is only told what there is
      simp only [hold, Bool.false_eq_true, if_false]
      refine .next (runOn_cached? (s := t) hi x.2) ?_
      cases i.cache.result? x.2 with
      | none => exact .pure ⟨rfl, hJ, hextends, hwatched⟩
      | some r => exact .of_runOn (fun _ => runOn_note _) ⟨rfl, hJ, hextends, hwatched⟩

/-! ## §4. Reading and resolving. -/

/-- When a field was computed for a reader, its slot is read, and its watchers run. -/
theorem reread_ends {t : Session} {j : Instance} (hj : t.instance? x.1 = some j)
    (address : String) (hJ : J tasks t.view) (hsteady : s.view.Steady t.view) :
    Ends (fun call => do
      match ← cached? x.1 x.2 with
      | none => throw .notReady
      | some r => do
          if (← get).live then do
            let _ ← call (.fire address)
            ofResult r
          else ofResult r : Performer → Action Value) t fun _ u =>
      J tasks u.view ∧ s.view.Steady u.view := by
  have hlive : t.live = true := (P.regular hJ).sound.live
  refine .next (runOn_cached? hj x.2) ?_
  cases j.cache.result? x.2 with
  | none => exact .throw ⟨hJ, hsteady⟩
  | some r =>
    refine .next runOn_get ?_
    simp only [hlive, if_true]
    refine .bind_isOk (fire_ends P.toCascade (P.fire address hJ)) ?_
    rintro _ u ⟨hJu, hu⟩
    exact .of_runOn (fun _ => runOn_ofResult r u) ⟨hJu, hsteady.trans hu⟩

/-- **Reading a field.** -/
theorem read_ends (h : J tasks s.view) (hx : s.view.outline.Declares x m spec) :
    Ends (fun call => call (.field x.1 x.2)) s fun _ t =>
      J tasks t.view ∧ s.view.Steady t.view := by
  have hregular := P.regular h
  cases hr : s.view.result? x with
  | some r =>
    refine (field_ends hx.member hx.field hr).mono ?_
    rintro a t ⟨-, rfl⟩
    exact ⟨h, .refl _⟩
  | none =>
    obtain ⟨i, hi, rfl⟩ := instance_of_member? hx.member
    have hcached : i.cache.result? x.2 = none := by
      rw [← result?_of_instance hi]
      exact hr
    have hcomputed : spec.isStatic = false := by
      cases hstatic : spec.isStatic with
      | false => rfl
      | true =>
        obtain ⟨w, hw⟩ := hregular.stocked.given hx hstatic
        have hresult := hw.result?
        simp [hr] at hresult
    refine .call ?_
    show Ends (fun call => readField call x.1 x.2) s _
    unfold readField
    refine .next (runOn_declared hi hx.field) (.next (runOn_cached? hi x.2) ?_)
    rw [hcached]
    refine .next (runOn_getInstance hi) ?_
    simp only [hcomputed, Bool.false_eq_true, if_false]
    split
    · exact .throw ⟨h, .refl _⟩
    · -- a field without references is computed now, and its watchers run
      have hcompute := compute_task_ends P h ⟨i.member, spec, hx⟩
      refine .attempt_bind hcompute ?_
      rintro a t ⟨hfills, -⟩
      have hJ := P.fills h hfills
      have hsteady := hfills.steady
      have hmember : t.view.outline.member? x.1 = some i.member := hsteady.outline ▸ hx.member
      obtain ⟨j, hj, -⟩ := instance_of_member? hmember
      have hthen := reread_ends P hj (i.fieldAddress x.2) hJ hsteady
      cases a with
      | ok _ => exact hthen
      | error e =>
        cases e with
        | notReady => exact .throw ⟨hJ, hsteady⟩
        | _ => exact hthen

/-- **Resolving a field** registers it, and gives what computing it then comes
to. -/
theorem resolve_ends (h : J tasks s.view) (hx : s.view.outline.Has x) :
    Ends (fun call => call (.resolve x.1 x.2)) s fun a t => ∃ v, J tasks v
      ∧ s.view.Extends v ∧ v.Attached x ∧ v.Fills (fun _ => True) (V v) t.view ∧ V v x a
      ∧ (a = .error .notReady ∧ t.view.slots x = none ∨ t.view.Settled x a) := by
  refine .call ?_
  show Ends (fun call => resolveField call x.1 x.2) s _
  unfold resolveField
  refine .bind_ok (register_ends P h hx) ?_
  rintro t ⟨hJ, hext, hattached⟩
  have hx' : t.view.outline.Has x := hext.outline ▸ hx
  refine .attempt_bind (compute_task_ends P hJ hx') ?_
  rintro a u ⟨hfills, r, hV, hcases⟩
  rcases hcases with ⟨rfl, rfl, hnone⟩ | ⟨hset, hanswers⟩
  · exact .throw ⟨_, hJ, hext, hattached, hfills, hV, .inl ⟨rfl, hnone⟩⟩
  · -- the field is settled, so it is read as it is
    obtain ⟨m, spec, hdecl⟩ := hx'
    rw [← hfills.outline] at hdecl
    have hread := field_ends hdecl.member hdecl.field hset.result?
    have hthen : Ends (fun call => call (.field x.1 x.2)) u fun a w => ∃ v, J tasks v
        ∧ s.view.Extends v ∧ v.Attached x ∧ v.Fills (fun _ => True) (V v) w.view ∧ V v x a
        ∧ (a = .error .notReady ∧ w.view.slots x = none ∨ w.view.Settled x a) := by
      refine hread.mono ?_
      rintro b w ⟨rfl, rfl⟩
      exact ⟨_, hJ, hext, hattached, hfills, hV, .inr hset⟩
    obtain ⟨e, he, hr, hne⟩ := hset
    rcases hanswers with rfl | ⟨e', rfl, rfl⟩
    · exact hthen
    · cases e' with
      | notReady => exact absurd rfl hne
      | _ => exact hthen

end Protocol

end LazyFields.Session
