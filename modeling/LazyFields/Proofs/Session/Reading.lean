/-
  LazyFields.Proofs.Session.Reading
  ────────────────────────────────
  **READING IS ANSWERED WITH WHAT IS SETTLED.**

  `memoizing_perform` says what an operation has done if it answers.  Resolving
  a field does answer, alone (`resolve_reads`) or together with other instances,
  in whatever order the pool comes to them (`resolveAll_recalls`,
  `resolveParallel_recalls`).

  So whoever asks for a settled field gets what is settled, in each of these ways
  (`readsBack_of_settled`).
-/
import LazyFields.Proofs.Session.Cyclic
import LazyFields.Proofs.Session.Memoizing
import LazyFields.Proofs.Session.OnField
import LazyFields.Proofs.Session.Parallel

namespace LazyFields

theorem Outline.Sound.standing {o : Outline} (ho : o.Sound) (halone : o.catalog.ComputesAlone) :
    o.Standing where
  published hn := by
    obtain ⟨m, hm, -⟩ := ho.published.1 hn
    exact ⟨m, hm⟩
  alone hm hlogic := halone (ho.kind hm) hlogic

namespace Session

open LazyFields.Action

variable {s t u : Session} {x : Node} {m : Member} {spec : FieldSpec} {cascades : Prop}
  {o : Outline} {n : Nat} {ns : List Nat} {field : String} {r : Outcome}

/-! ## §1. Resolving one field. -/

/-- A field that refers to nothing is finished by a computation that finds it free. -/
theorem Tried.finished {a : Except Error Unit} (h : Tried cascades o x s a t) (hs : s.Orderly o)
    (hst : s.Memoizes cascades t) (hbare : o.Bare x) (ha : a ≠ .error .notReady) :
    t.view.Finished x := by
  obtain ⟨m, spec, hx, hcomputed, hrefs⟩ := id hbare
  obtain ⟨hopen, -, hbusy⟩ := h.bare hbare
  cases hst.fate (hs.outline ▸ hx) hcomputed fun _ => hrefs with
  | kept hslot =>
    -- nobody was computing it before, so nobody is computing it now
    by_contra hnot
    exact hopen ⟨fun hb => ha (hbusy (View.Busy.congr hb hslot.symm)), hnot⟩
  | failed _ hfinished => exact hfinished
  | called _ _ hsettled => exact hsettled.finished

/-- Reading a field answers, unless its logic is to be called for the reader. -/
theorem field_answers (hs : s.Orderly o) (hn : o.Keeps x.1)
    (hbare : o.Bare x → (s.view.result? x).isSome) :
    Ends (fun call => call (.field x.1 x.2)) s fun _ _ => True := by
  obtain ⟨m, hm, hkept⟩ := hn
  obtain ⟨i, hi, rfl⟩ := hs.instance? hm
  refine .call ?_
  show Ends (fun call => readField call x.1 x.2) s _
  unfold readField
  cases hfield : i.kind.info.field? x.2 with
  | none => exact .stop (runOn_declared_of_none hi hfield) trivial
  | some spec =>
    refine .next (runOn_declared hi hfield) (.next (runOn_cached? hi x.2) ?_)
    cases hr : i.cache.result? x.2 with
    | some r => exact .of_runOn (fun _ => runOn_ofResult r s) trivial
    | none =>
      refine .next (runOn_getInstance hi) ?_
      cases hstatic : spec.isStatic with
      | true => exact .throw trivial
      | false =>
        cases hrefs : spec.refs with
        | cons reference refs => exact .throw trivial
        | nil =>
          -- a reader only computes what refers to nothing, and that has a result already
          have hsome := hbare ⟨i.member, spec, ⟨hm, hkept, hfield⟩, hstatic, hrefs⟩
          rw [result?_of_instance hi, hr] at hsome
          cases hsome

section Resolving

variable (ho : o.Sound) (halone : o.catalog.ComputesAlone) (hready : o.catalog.ComputesReady)

include ho halone hready

/-- **Resolving a field answers**, with what is settled then. -/
theorem resolve_reads (cascades : Prop) (hs : s.Orderly o) (hn : o.Keeps x.1) :
    Ends (fun call => call (.resolve x.1 x.2)) s fun a t =>
      t.Orderly o ∧ s.Memoizes cascades t ∧ Read cascades o x a t := by
  have hperform := memoizing_perform ho halone hready cascades
  have hstanding := ho.standing halone
  obtain ⟨m, hm, -⟩ := id hn
  have hregister : Ends (fun call => call (.register x.1 x.2)) s fun _ t => t.Orderly o :=
    ((register_extends hstanding o.addresses x m hm s hs.outline fun _ h _ => h).and_returns
      fun fuel => (hperform fuel).register hs hn).mono fun _ _ ht => ht.2.1
  have hcompute : ∀ {t : Session}, t.Orderly o → Ends (fun call => call (.compute x.1 x.2)) t
      fun a u => u.Orderly o ∧ t.Memoizes cascades u ∧ Tried cascades o x t a u := fun ht =>
    ((compute_advances_all (ht.outline ▸ hstanding) (ht.outline ▸ hm)).and_returns
      fun fuel => (hperform fuel).compute ht hn).mono fun _ _ hu => hu.2
  -- what it answers is known once it answers at all
  have hresolve : Ends (fun call => call (.resolve x.1 x.2)) s fun _ _ => True := by
    refine .call ?_
    show Ends (fun call => resolveField call x.1 x.2) s _
    unfold resolveField
    refine .bind hregister ?_ fun _ _ _ => trivial
    intro _ t ht
    refine .attempt_bind (hcompute ht) ?_
    rintro a u ⟨hu, htu, htried⟩
    have hfield : a ≠ .error .notReady → Ends (fun call => call (.field x.1 x.2)) u
        fun _ _ => True := by
      refine fun ha => field_answers hu hn fun hbare => ?_
      obtain ⟨r, hr⟩ := (htried.finished ht htu hbare ha).result?
      rw [hr]
      rfl
    cases a with
    | ok _ => exact hfield (by simp)
    | error e =>
      cases e with
      | notReady => exact .throw trivial
      | _ => exact hfield (by simp)
  exact (hresolve.and_returns fun fuel => (hperform fuel).resolve hs hn).mono fun _ _ ht => ht.2

/-! ## §2. Resolving one field of many instances. -/

/-- Resolving one of many instances answers what was settled at first. -/
theorem attempt_resolve_recalls (hs : s.Orderly o) (hn : o.Keeps n) (ht : t.Orderly o)
    (hst : s.Memoizes cascades t) :
    Ends (fun call => attempt (call (.resolve n field))) t fun a u =>
      ∃ r, a = .ok r ∧ Recalls cascades o s field n r ∧ u.Orderly o ∧ s.Memoizes cascades u := by
  have hresolve := resolve_reads (x := (n, field)) ho halone hready cascades ht hn
  refine .attempt (hresolve.mono ?_)
  rintro r u ⟨hu, htu, hread⟩
  have hsu := hst.trans htu
  refine ⟨r, rfl, hsu.recalls hs ?_, hu, hsu⟩
  exact fun _ _ _ hx _ honce hset => hread hx honce hset

/-- The answer for many instances is a verdict over outcomes that were settled at first,
where they were. -/
theorem resolveAll_recalls (hs : s.Orderly o) (hns : ∀ n ∈ ns, o.Keeps n) (failFast : Bool) :
    Ends (fun call => call (.resolveAll ns field failFast)) s fun a t =>
      (t.Orderly o ∧ s.Memoizes cascades t)
        ∧ ∃ results, a = verdict failFast results
          ∧ List.Forall₂ (Recalls cascades o s field) ns results := by
  refine .call ?_
  show Ends (fun call => resolveAll call ns field failFast) s _
  simp only [resolveAll_eq]
  have hresults := Ends.mapM_forall₂ (f := fun n call => attempt (call (.resolve n field)))
    (R := Recalls cascades o s field) (I := fun t => t.Orderly o ∧ s.Memoizes cascades t)
    (fun n hn t ht => attempt_resolve_recalls ho halone hready hs (hns n hn) ht.1 ht.2)
    s ⟨hs, .refl cascades s⟩
  refine .bind hresults ?_ ?_
  · rintro results t ⟨_, heq, hrecalls, ht⟩
    cases heq
    exact .of_runOn (fun _ => runOn_ofResult _ t) ⟨ht, _, rfl, hrecalls⟩
  · rintro e t ⟨results, heq, -⟩
    cases heq

/-- So it is when a pool resolves them, in whatever order. -/
theorem resolveParallel_recalls (hs : s.Orderly o) (hns : ∀ n ∈ ns, o.Keeps n) (config : Config)
    {order : List (Nat × Nat)} (horder : order.Perm ns.zipIdx) :
    Ends (fun call => resolveParallel call ns field config order) s fun a t =>
      (t.Orderly o ∧ s.Memoizes cascades t)
        ∧ ∃ results, a = verdict config.failFast results
          ∧ List.Forall₂ (Recalls cascades o s field) ns results := by
  have hstart : s.Orderly o ∧ s.Memoizes cascades s := ⟨hs, .refl cascades s⟩
  unfold resolveParallel
  split
  · exact .pure ⟨hstart, [], (verdict_nil _).symm, .nil⟩
  · next n =>
    refine .bind (attempt_resolve_recalls ho halone hready hs (hns n (List.mem_singleton_self n))
      hs hstart.2) ?_ ?_
    · rintro r t ⟨_, heq, hrecalls, ht⟩
      cases heq
      refine .of_runOn (fun _ => runOn_ofResult _ t) ⟨ht, [r], (verdict_singleton _ r).symm, ?_⟩
      exact .cons hrecalls .nil
    · rintro e t ⟨r, heq, -⟩
      cases heq
  -- each result comes with its position among the instances
  · have hresults : Ends (fun call => resolveOneByOne call field order) s fun a t =>
        ∃ results, a = .ok results
          ∧ List.Forall₂ (fun e p => p.1 = e.2 ∧ Recalls cascades o s field e.1 p.2) order results
          ∧ t.Orderly o ∧ s.Memoizes cascades t := by
      refine Ends.mapM_forall₂ (I := fun t => t.Orderly o ∧ s.Memoizes cascades t) ?_ s hstart
      rintro ⟨n, position⟩ he t ht
      have hn : n ∈ ns :=
        List.mem_of_getElem? (List.mk_mem_zipIdx_iff_getElem?.1 (horder.mem_iff.1 he))
      refine .bind (attempt_resolve_recalls ho halone hready hs (hns n hn) ht.1 ht.2) ?_ ?_
      · rintro r u ⟨_, heq, hrecalls, hu⟩
        cases heq
        exact .pure ⟨(position, r), rfl, ⟨rfl, hrecalls⟩, hu⟩
      · rintro e u ⟨r, heq, -⟩
        cases heq
    -- ordered by position, the results are those of the instances as they were given
    refine .bind hresults ?_ ?_
    · rintro results t ⟨_, heq, hrecalls, ht⟩
      cases heq
      exact .of_runOn (fun _ => runOn_ofResult _ t) ⟨ht, _, rfl, forall₂_byPosition horder hrecalls⟩
    · rintro e t ⟨results, heq, -⟩
      cases heq

end Resolving

/-! ## §3. Reading back. -/

theorem Keeps.outline (h : s.Keeps n) : s.view.outline.Keeps n := by
  obtain ⟨i, -, hm, hkept⟩ := member?_of_keeps h
  exact ⟨i.member, hm, hkept⟩

/-- Whoever asks for the field gets the outcome, alone or with other instances. -/
structure ReadsBack (s : Session) (x : Node) (r : Outcome) : Prop where
  field : ∃ fuel, s.run fuel (.field x.1 x.2) = some (r, s)
  resolve : ∃ fuel t, s.run fuel (.resolve x.1 x.2) = some (r, t)
  resolveAll : ∀ {ns : List Nat}, (∀ n ∈ ns, s.Keeps n) → ∀ failFast, ∃ fuel t results,
    s.run fuel (.resolveAll ns x.2 failFast) = some (verdict failFast results, t)
      ∧ List.Forall₂ (fun n a => n = x.1 → a = r) ns results
  /-- The pool may come to the instances in whatever order. -/
  parallel : ∀ {ns : List Nat}, (∀ n ∈ ns, s.Keeps n) → ∀ (config : Config)
    {order : List (Nat × Nat)}, order.Perm ns.zipIdx → ∃ fuel t results,
      (resolveParallel (perform fuel) ns x.2 config order).runOn s
          = some (verdict config.failFast results, t)
        ∧ List.Forall₂ (fun n a => n = x.1 → a = r) ns results

/-- **What is settled is read back.** -/
theorem readsBack_of_settled (ho : s.view.outline.Sound)
    (halone : s.view.outline.catalog.ComputesAlone)
    (hready : s.view.outline.catalog.ComputesReady) (hs : s.Orderly s.view.outline)
    (hx : s.view.outline.Declares x m spec) (hcomputed : spec.isStatic = false)
    (hset : s.view.Settled x r) : s.ReadsBack x r := by
  have hrecalls : ∀ {ns : List Nat} {results : List Outcome},
      List.Forall₂ (Recalls False s.view.outline s x.2) ns results →
        List.Forall₂ (fun n a => n = x.1 → a = r) ns results := by
    refine fun hall => hall.imp ?_
    rintro _ a hrecall rfl
    exact hrecall m spec r hx hcomputed nofun hset
  constructor
  · obtain ⟨fuel, a, t, hrun, rfl, rfl⟩ := (field_ends hx.member hx.field hset.result?).run
    exact ⟨fuel, hrun⟩
  · obtain ⟨fuel, a, t, hrun, ht, hst, hread⟩ :=
      (resolve_reads ho halone hready False hs ⟨m, hx.member, hx.kept⟩).run
    have hslot := ((hst.fate hx hcomputed nofun).kept_of_not_open hset.not_open).1
    obtain rfl := hread hx nofun (hset.congr hslot)
    exact ⟨fuel, t, hrun⟩
  · intro ns hns failFast
    obtain ⟨fuel, a, t, hrun, -, results, rfl, hall⟩ := (resolveAll_recalls ho halone hready hs
      (fun n hn => (hns n hn).outline) failFast).run
    exact ⟨fuel, t, results, hrun, hrecalls hall⟩
  · intro ns hns config order horder
    obtain ⟨a, t, ⟨fuel, hrun⟩, -, results, rfl, hall⟩ := resolveParallel_recalls ho halone hready
      hs (fun n hn => (hns n hn).outline) config horder
    exact ⟨fuel, t, results, hrun fuel (Nat.le_refl fuel), hrecalls hall⟩

end Session

end LazyFields
