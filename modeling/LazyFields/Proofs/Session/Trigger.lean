/-
  LazyFields.Proofs.Session.Trigger
  ────────────────────────────────
  **CASCADES END, AND KEEP WHAT A CASCADE KEEPS.**

  Triggering a field runs its followers, and each that is settled anew triggers
  itself.  A cascade climbs: whoever follows a field refers to it, so its rank
  is larger, and ranks are bounded by the depth of the catalog.  So every
  cascade ends, whatever the watch graph looks like (`fire_ends`), and in the
  end an invariant of cascades holds with no follow-up pending.
-/
import LazyFields.Proofs.Session.Tasks

namespace LazyFields.Session

open LazyFields.Action

variable {D : Node → Prop} {V : View → Node → Outcome → Prop} {J : List Task → View → Prop}
  {s : Session} {x : Node} {m : Member} {spec : FieldSpec}

/-! ## §1. Triggering a settled field. -/

theorem status_of_settled {i : Instance} (hi : s.instance? x.1 = some i) {r : Outcome}
    (h : s.view.Settled x r) : i.cache.status x.2 = .valid ∨ i.cache.status x.2 = .error := by
  obtain ⟨e, he, hr, -⟩ := h
  have hslot : i.cache.slot? x.2 = some (.stored e) := (slots_of_instance hi x.2).symm.trans he
  have hsettled := Entry.isSettled_of_result? hr
  simp only [Entry.isSettled, Bool.or_eq_true] at hsettled
  simp only [Cache.status, hslot, Option.map_some, Option.getD_some, Slot.status]
  by_cases herr : e.error.isSome = true
  · exact .inr (if_pos herr)
  · have hvalid := hsettled.resolve_right herr
    rw [if_neg herr, if_pos hvalid]
    exact .inl rfl

theorem trigger_settled_ends (hx : s.view.outline.Declares x m spec) (hname : x.2 ≠ "")
    {r : Outcome} (hset : s.view.Settled x r) {R : Session → Prop}
    (hfire : Ends (fun call => call (.fire (m.address x.2))) s fun a t => a.isOk ∧ R t) :
    Ends (fun call => call (.trigger x.1 x.2)) s fun a t => a = .ok () ∧ R t := by
  obtain ⟨i, hi, rfl⟩ := instance_of_member? hx.member
  have hthen : Ends (fun call => do
      let _ ← call (.fire (i.fieldAddress x.2))
      pure ()) s fun a t => a = .ok () ∧ R t :=
    .bind_isOk hfire fun _ t ht => .pure ⟨rfl, ht⟩
  refine .call ?_
  show Ends (fun call => trigger call x.1 x.2) s _
  unfold trigger
  simp only [hname, if_false]
  refine .next (runOn_getInstance hi) ?_
  rcases status_of_settled hi hset with hstatus | hstatus
  · simp only [hstatus]
    exact hthen
  · simp only [hstatus]
    exact hthen

/-- The callback of a watcher changes no view. -/
theorem report_ends {n : Nat} {field watcher : String} (hm : s.view.outline.member? n = some m) :
    Ends (fun call => runFollowUp call (.report n field watcher)) s fun a t =>
      a = .ok () ∧ t.view = s.view := by
  obtain ⟨i, hi, -⟩ := instance_of_member? hm
  unfold runFollowUp
  refine .next (runOn_getInstance hi) ?_
  cases i.discarded with
  | true => exact .pure ⟨rfl, rfl⟩
  | false => exact .of_runOn (fun _ => runOn_note _) ⟨rfl, rfl⟩

/-! ## §2. Cascades. -/

section Cascade

variable (C : Cascade D V J)

include C

/-- A field that a cascade computes anew stalls, or is settled, and then its
followers are pending. -/
theorem recompute_task_ends {n : Nat} {field : String} {tasks : List Task}
    (h : J (.run (.recompute n field) :: tasks) s.view)
    (hx : s.view.outline.Declares (n, field) m spec) (hcomputed : spec.isStatic = false) :
    Ends (fun call => call (.recompute n field)) s fun a t => s.view.Steady t.view
      ∧ ((a = .error .notReady ∧ J tasks t.view)
        ∨ (a ≠ .error .notReady ∧ (∃ r, t.view.Settled (n, field) r)
          ∧ J (t.view.followers (m.address field) ++ tasks) t.view)) := by
  have hregular := C.regular h
  have hrecompute := recompute_ends hregular.sound hregular.alone hregular.stocked
    hregular.quiet (C.closed h) hx hcomputed (C.scope h)
  refine hrecompute.mono ?_
  rintro a t ⟨mid, hmid, r, hyields, ⟨rfl, ha, ht⟩ | ⟨hr, ha, now, ht⟩⟩
  · rw [ht]
    exact ⟨hmid.steady, .inl ⟨ha, C.fills (C.stalls h ⟨_, _, hx, hcomputed⟩ hyields) hmid⟩⟩
  · have hne : a ≠ .error .notReady := by
      rcases ha with rfl | ⟨e, rfl, rfl⟩
      · simp
      · simpa using hr
    rw [ht]
    exact ⟨⟨hmid.outline, hmid.watches⟩,
      .inr ⟨hne, ⟨r, View.settled_put mid _ hr now⟩, C.reruns h hx hcomputed hmid hyields hr now⟩⟩

/-- The follow-up of a watcher, given how the followers of the recomputed field
are run. -/
theorem runFollowUp_ends {f : FollowUp} {address : String} {tasks : List Task}
    (h : J (.run f :: tasks) s.view) (hf : f.Fits s.view.outline address)
    (hfire : ∀ n field m spec, f = .recompute n field → s.view.outline.Declares (n, field) m spec →
      ∀ t : Session, s.view.Steady t.view →
        J (t.view.followers (m.address field) ++ tasks) t.view →
        Ends (fun call => call (.fire (m.address field))) t fun a u =>
          a.isOk ∧ J tasks u.view ∧ t.view.Steady u.view) :
    Ends (fun call => runFollowUp call f) s fun a t =>
      a = .ok () ∧ J tasks t.view ∧ s.view.Steady t.view := by
  cases f with
  | report n field watcher =>
    obtain ⟨m, hm⟩ := hf
    refine (report_ends hm).mono ?_
    rintro a t ⟨ha, ht⟩
    rw [ht]
    exact ⟨ha, C.report h, .refl _⟩
  | recompute n field =>
    have hregular := C.regular h
    obtain ⟨m, spec, hx, hcomputed⟩ := hregular.computes_of_fits hf
    obtain ⟨i, hi, rfl⟩ := instance_of_member? hx.member
    unfold runFollowUp
    refine .next (runOn_getInstance hi) ?_
    have hkept : i.discarded = false := hx.kept
    simp only [hkept, Bool.false_eq_true, if_false]
    refine .attempt_bind (recompute_task_ends C h hx hcomputed) ?_
    rintro a t ⟨hsteady, ⟨rfl, hJ⟩ | ⟨hne, ⟨r, hset⟩, hJ⟩⟩
    · exact .pure ⟨rfl, hJ, hsteady⟩
    · have hx' : t.view.outline.Declares (n, field) i.member spec := hsteady.outline ▸ hx
      have hname := (hregular.sound.isName hx).2.1
      have htrigger := trigger_settled_ends hx' hname hset
        (hfire n field i.member spec rfl hx t hsteady hJ)
      have hignore : Ends (fun call => ignore (call (.trigger n field))) t fun a u =>
          a = .ok () ∧ J tasks u.view ∧ s.view.Steady u.view :=
        .ignore (htrigger.mono fun _ u hu => ⟨rfl, hu.2.1, hsteady.trans hu.2.2⟩)
      -- whatever the answer was, it was not the signal
      cases a with
      | ok _ => exact hignore
      | error e =>
        cases e with
        | notReady => exact absurd rfl hne
        | _ => exact hignore

omit C in
/-- The followers of a field run one after the other, given how each is run. -/
theorem fire_loop_ends {tasks : List Task} {address : String}
    (h : J (s.view.followers address ++ tasks) s.view)
    (hrun : ∀ watcher f, (s.view.callbacks address).get? watcher = some f →
      ∀ (t : Session) (rest : List Task), s.view.Steady t.view → J (.run f :: rest) t.view →
        Ends (fun call => runFollowUp call f) t fun a u =>
          a = .ok () ∧ J rest u.view ∧ t.view.Steady u.view) :
    Ends (fun call => call (.fire address)) s fun a t =>
      a.isOk ∧ J tasks t.view ∧ s.view.Steady t.view := by
  refine .call ?_
  show Ends (fun call => fire call address) s _
  unfold fire
  refine .next runOn_get ?_
  -- on the way the followers that have not run yet are pending
  have hloop := Ends.forM (f := fun f call => runFollowUp call f)
    (I := fun fs t => J (fs.map .run ++ tasks) t.view ∧ s.view.Steady t.view
      ∧ ∀ f ∈ fs, ∃ watcher, (s.view.callbacks address).get? watcher = some f)
    (Q := fun a t => a = .ok () ∧ J tasks t.view ∧ s.view.Steady t.view)
    (fun f fs t ⟨hJ, hsteady, hfs⟩ => by
      obtain ⟨watcher, hf⟩ := hfs f List.mem_cons_self
      refine (hrun watcher f hf t _ hsteady hJ).mono ?_
      rintro a u ⟨ha, hJ, hsteady'⟩
      exact ⟨ha, hJ, hsteady.trans hsteady', fun g hg => hfs g (List.mem_cons_of_mem _ hg)⟩)
    (fun t ⟨hJ, hsteady, _⟩ => ⟨rfl, hJ, hsteady⟩)
    (s.view.callbacks address).values s
    ⟨h, .refl _, fun f hf => Table.mem_values.1 hf⟩
  exact .bind_ok hloop fun _ ht => .pure ⟨rfl, ht⟩

/-- A cascade that starts at rank `depth - d` ends.  By induction on `d`: who
follows a field has a larger rank. -/
theorem fire_ends_below {rank : String × String → Nat} {o : Outline} (ho : o.Sound)
    (hrank : o.catalog.Ranks rank) (d : Nat) :
    ∀ (s : Session) (tasks : List Task) (address : String), s.view.outline = o →
      J (s.view.followers address ++ tasks) s.view →
      (∀ watcher n field, (s.view.callbacks address).get? watcher = some (.recompute n field) →
        o.catalog.depth ≤ o.rank rank (n, field) + d) →
      Ends (fun call => call (.fire address)) s fun a t =>
        a.isOk ∧ J tasks t.view ∧ s.view.Steady t.view := by
  induction d using Nat.strongRecOn with
  | ind d ih =>
    rintro s tasks address rfl h hbelow
    have hregular := C.regular h
    refine fire_loop_ends h fun watcher f hf t rest hsteady hJ => ?_
    have hfits := hregular.fits hf
    rw [← hsteady.outline] at hfits
    refine runFollowUp_ends C hJ hfits ?_
    rintro n field m spec rfl hx u hsteady' hJ'
    rw [hsteady.outline] at hx
    have hlow := hbelow watcher n field hf
    have hhigh := ho.rank_lt_depth hrank hx
    have hview := hsteady.trans hsteady'
    -- whoever follows the field that is triggered has a larger rank
    refine ih (d - 1) (by omega) u rest (m.address field) hview.outline hJ' ?_
    intro watcher' n' field' hf'
    rw [View.callbacks_congr hview.watches] at hf'
    obtain ⟨m', spec', reference, hy, href, haddress⟩ := hregular.fits hf'
    have hlt := ho.rank_of_targetAddress hrank hy href hx haddress.symm
    omega

/-- **Every cascade ends**, and leaves no follow-up of its own pending. -/
theorem fire_ends {tasks : List Task} {address : String}
    (h : J (s.view.followers address ++ tasks) s.view) :
    Ends (fun call => call (.fire address)) s fun a t =>
      a.isOk ∧ J tasks t.view ∧ s.view.Steady t.view := by
  have ho := (C.regular h).sound
  obtain ⟨rank, hrank⟩ := ho.lawful.ranked
  exact fire_ends_below C ho hrank s.view.outline.catalog.depth s tasks address rfl h
    fun _ _ _ _ => Nat.le_add_left _ _

end Cascade

/-- **Triggering a field** ends. -/
theorem trigger_ends {Allows : String → Prop} (P : Protocol Allows V J) {tasks : List Task}
    (h : J tasks s.view) (hx : s.view.outline.Declares x m spec) :
    Ends (fun call => call (.trigger x.1 x.2)) s fun _ t =>
      J tasks t.view ∧ s.view.Steady t.view := by
  have hregular := P.regular h
  have hname := (hregular.sound.isName hx).2.1
  rcases hregular.slot x with hnone | ⟨r, hset⟩
  · obtain ⟨i, hi, rfl⟩ := instance_of_member? hx.member
    have hstatus : i.cache.status x.2 = .unset := by
      have hslot : i.cache.slot? x.2 = none := (slots_of_instance hi x.2).symm.trans hnone
      simp [Cache.status, hslot]
    refine .call ?_
    show Ends (fun call => trigger call x.1 x.2) s _
    unfold trigger
    simp only [hname, if_false]
    refine .next (runOn_getInstance hi) ?_
    simp only [hstatus]
    -- an unset field is computed before its watchers run
    have hcompute := compute_ends hregular.sound hregular.alone hregular.stocked hregular.quiet
      (P.closed h) ⟨i.member, spec, hx⟩ trivial
    refine .bind hcompute ?_ ?_
    · rintro _ t ⟨hfills, -⟩
      have hJ := P.fills h hfills
      have hmember : t.view.outline.member? x.1 = some i.member := hfills.outline ▸ hx.member
      obtain ⟨j, hj, hji⟩ := instance_of_member? hmember
      refine .next (runOn_getInstance hj) ?_
      split
      · exact .bind_isOk (fire_ends P.toCascade (P.fire (j.fieldAddress x.2) hJ)) fun _ u hu =>
          .pure ⟨hu.1, hfills.steady.trans hu.2⟩
      · exact .pure ⟨hJ, hfills.steady⟩
    · rintro e t ⟨hfills, -⟩
      exact ⟨P.fills h hfills, hfills.steady⟩
  · refine (trigger_settled_ends hx hname hset (fire_ends P.toCascade (P.fire _ h))).mono ?_
    exact fun a t ht => ht.2

end LazyFields.Session
