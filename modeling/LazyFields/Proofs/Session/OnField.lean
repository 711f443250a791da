/-
  LazyFields.Proofs.Session.OnField
  ────────────────────────────────
  **OPERATIONS ON ONE FIELD.**

  Whoever holds an instance may register, compute, read, resolve, trigger or
  watch any of its fields.  An operation on a field that is not declared says
  so and changes nothing (`unknown_ends`); on any other it keeps what a
  `Protocol` keeps (`onField_ends`).

  A new session is regular (`regular_new`), so an invariant of a protocol has a
  place to start from.
-/
import LazyFields.Proofs.Session.Create

namespace LazyFields.Session

open LazyFields.Action

variable {s : Session}

/-! ## §1. New sessions. -/

theorem regular_new {c : Catalog} (config : Config) (hlawful : c.Lawful)
    (halone : c.ComputesAlone) (now : Int) :
    (Session.new c config now).view.Regular where
  sound := {
    lawful := hlawful
    live := rfl
    kind {n m} h := by simp [Session.new, view, outline, Outline.member?] at h
    published := by simp [Session.new, view, outline, Outline.member?] }
  alone := halone
  stocked := by
    constructor
    · intro x e h
      simp [Session.new, view, slot?, instance?] at h
    · intro x m spec h
      have hmember := h.member
      simp [Session.new, view, outline, Outline.member?] at hmember
  quiet x previous h := by simp [Session.new, view, slot?, instance?] at h
  declared h := by simp [Session.new, view, slot?, instance?] at h
  fits h := by simp [Session.new, view, View.callbacks] at h

/-- There is an instance of the number, and it was not discarded. -/
def Keeps (s : Session) (n : Nat) : Prop := ∃ i, s.instance? n = some i ∧ i.discarded = false

instance (s : Session) (n : Nat) : Decidable (s.Keeps n) :=
  decidable_of_iff ((s.instance? n).any fun i => !i.discarded) <| by
    simp [Keeps, Option.any_eq_true]

theorem member?_of_keeps {n : Nat} (h : s.Keeps n) :
    ∃ i, s.instance? n = some i ∧ s.view.outline.member? n = some i.member
      ∧ i.member.discarded = false := by
  obtain ⟨i, hi, hkept⟩ := h
  exact ⟨i, hi, member?_of_instance hi, hkept⟩

/-! ## §2. Fields that are not declared. -/

/-- The operations on one field of an instance. -/
inductive OnField (n : Nat) (field : String) : Operation → Prop
  | register : OnField n field (.register n field)
  | compute : OnField n field (.compute n field)
  | recompute : OnField n field (.recompute n field)
  | field : OnField n field (.field n field)
  | resolve : OnField n field (.resolve n field)
  | trigger : OnField n field (.trigger n field)
  | watch (watcher : String) : OnField n field (.watch n field watcher)

/-- **An operation on a field that is not declared** fails and changes nothing. -/
theorem unknown_ends {n : Nat} {field : String} {i : Instance} (hi : s.instance? n = some i)
    (hunknown : i.kind.info.field? field = none) (hslot : s.view.slots (n, field) = none)
    {op : Operation} (hop : OnField n field op) :
    Ends (fun call => call op) s fun a t => (∃ e, a = .error e) ∧ t = s := by
  have hdeclared := runOn_declared_of_none hi hunknown
  have hcompute : Ends (fun call => call (.compute n field)) s fun a t =>
      (∃ e, a = .error e) ∧ t = s :=
    (compute_undeclared_ends (x := (n, field)) hi hunknown).mono fun a t h => ⟨⟨_, h.1⟩, h.2⟩
  have hregister : Ends (fun call => call (.register n field)) s fun a t =>
      (∃ e, a = .error e) ∧ t = s := by
    refine .call ?_
    show Ends (fun call => register call n field) s _
    unfold register
    exact .stop hdeclared ⟨⟨_, rfl⟩, rfl⟩
  cases hop with
  | register => exact hregister
  | compute => exact hcompute
  | recompute =>
    refine .call ?_
    show Ends (fun call => computeField call n field true) s _
    unfold computeField
    exact .stop hdeclared ⟨⟨_, rfl⟩, rfl⟩
  | field =>
    refine .call ?_
    show Ends (fun call => readField call n field) s _
    unfold readField
    exact .stop hdeclared ⟨⟨_, rfl⟩, rfl⟩
  | resolve =>
    refine .call ?_
    show Ends (fun call => resolveField call n field) s _
    unfold resolveField
    refine .bind hregister ?_ ?_
    · rintro a t ⟨⟨e, ha⟩, -⟩
      simp at ha
    · rintro e t ⟨-, rfl⟩
      exact ⟨⟨e, rfl⟩, rfl⟩
  | trigger =>
    refine .call ?_
    show Ends (fun call => trigger call n field) s _
    unfold trigger
    split
    · exact .throw ⟨⟨_, rfl⟩, rfl⟩
    · refine .next (runOn_getInstance hi) ?_
      -- what is not declared has no slot, so the trigger tries to compute it
      have hstatus : i.cache.status field = .unset := by
        have hnone : i.cache.slot? field = none := (slots_of_instance hi field).symm.trans hslot
        simp [Cache.status, hnone]
      simp only [hstatus]
      refine .bind hcompute ?_ ?_
      · rintro a t ⟨⟨e, ha⟩, -⟩
        simp at ha
      · rintro e t ⟨-, rfl⟩
        exact ⟨⟨e, rfl⟩, rfl⟩
  | watch watcher =>
    refine .call ?_
    show Ends (fun call => watchField call n field watcher) s _
    unfold watchField
    exact .stop hdeclared ⟨⟨_, rfl⟩, rfl⟩

/-! ## §3. Fields that are declared. -/

/-- **An operation on one field** keeps what a protocol keeps. -/
theorem onField_ends {Allows : String → Prop} {V : View → Node → Outcome → Prop}
    {J : List Task → View → Prop} (P : Protocol Allows V J) {n : Nat} {field : String}
    {op : Operation} (hop : OnField n field op) (h : J [] s.view) (hn : s.Keeps n)
    (hallowed : ∀ watcher, op = .watch n field watcher → Allows watcher)
    (hrecompute : op = .recompute n field → ∀ {v w : View} {m spec r}, J [] v →
      v.outline.Declares (n, field) m spec → spec.isStatic = false →
      v.Fills (fun _ => True) (V v) w → v.outline.Yields (V v) (n, field) r →
      r ≠ .error .notReady → ∀ now,
        J [] (w.put (n, field) (some (.stored (Entry.ofOutcome r now))))) :
    Ends (fun call => call op) s fun _ t => J [] t.view := by
  have hregular := P.regular h
  obtain ⟨i, hi, hmember, hkept⟩ := member?_of_keeps hn
  cases hfield : i.kind.info.field? field with
  | none =>
    -- whatever has a slot is declared
    have hslot : s.view.slots (n, field) = none := by
      cases hs : s.view.slots (n, field) with
      | none => rfl
      | some sl =>
        obtain ⟨m, spec, hm, hspec⟩ := hregular.declared hs
        obtain rfl : i.member = m := Option.some.inj (hmember.symm.trans hm)
        exact absurd (hfield.symm.trans hspec) (by simp)
    refine (unknown_ends hi hfield hslot hop).mono ?_
    rintro a t ⟨-, rfl⟩
    exact h
  | some spec =>
    have hx : s.view.outline.Declares (n, field) i.member spec := ⟨hmember, hkept, hfield⟩
    have hhas : s.view.outline.Has (n, field) := ⟨_, _, hx⟩
    cases hop with
    | register => exact (register_ends P h hhas).mono fun _ t ht => ht.2.1
    | compute => exact (compute_task_ends P h hhas).mono fun _ t ht => P.fills h ht.1
    | recompute =>
      cases hstatic : spec.isStatic with
      | true =>
        refine (recompute_static_ends hx hstatic).mono ?_
        rintro a t ⟨-, rfl⟩
        exact h
      | false =>
        refine (recompute_ends hregular.sound hregular.alone hregular.stocked hregular.quiet
          (P.closed h) hx hstatic trivial).mono ?_
        rintro a t ⟨mid, hmid, r, hyields, ⟨-, -, ht⟩ | ⟨hr, -, now, ht⟩⟩
        · exact ht ▸ P.fills h hmid
        · exact ht ▸ hrecompute rfl h hx hstatic hmid hyields hr now
    | field => exact (read_ends P h hx).mono fun _ t ht => ht.1
    | resolve =>
      refine (resolve_ends P h hhas).mono ?_
      rintro a t ⟨v, hJ, -, -, hfills, -⟩
      exact P.fills hJ hfills
    | trigger => exact (trigger_ends P h hx).mono fun _ t ht => ht.1
    | watch watcher =>
      exact (watch_ends P h hx (hallowed watcher rfl)).mono fun _ t ht => ht.2.1

end LazyFields.Session
