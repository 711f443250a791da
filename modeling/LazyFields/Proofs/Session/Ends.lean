/-
  LazyFields.Proofs.Session.Ends
  ────────────────────────────────
  **WHAT AN ACTION COMES TO.**

  `Ends a s Q` says that an action answers on a session as soon as what it
  calls may nest deep enough, and that its answer and the session it leaves
  satisfy `Q`.  It is total correctness with the depth hidden: no bound is
  carried along, since two actions in a row only need the larger of their two
  depths.

    · `Ends.bind`, `Ends.attempt`, `Ends.forM` — one rule for each way in which
      actions are put together
    · `Ends.call` — an operation within an action is what `step` makes of it
    · `Ends.run` — what holds of the end holds of the one answer of `run`

  The second section says what the small actions do that read the session or
  change one thing in it.
-/
import LazyFields.Session.Depth
import Mathlib.Data.List.Forall2

namespace LazyFields

/-! ## §1. Rules. -/

namespace Action

variable {α β : Type}

/-- After a success the second action runs. -/
theorem runOn_bind_ok {b : Action α} {g : α → Action β} {s t : Session} {x : α}
    (h : b.runOn s = some (.ok x, t)) : (b >>= g).runOn s = (g x).runOn t := by
  rw [runOn_bind, h]

/-- Given enough depth the action answers, and the answer and the session
after it are as `Q` says. -/
def Ends (a : Performer → Action α) (s : Session) (Q : Except Error α → Session → Prop) : Prop :=
  ∃ r t, (∃ fuel, ∀ more, fuel ≤ more → (a (Session.perform more)).runOn s = some (r, t)) ∧ Q r t

variable {a : Performer → Action α} {f : α → Performer → Action β} {s t : Session}
  {P Q : Except Error α → Session → Prop} {R : Except Error β → Session → Prop}

/-- Less may be said of the end. -/
theorem Ends.mono (h : Ends a s P) (k : ∀ r t, P r t → Q r t) : Ends a s Q := by
  obtain ⟨r, t, hrun, hp⟩ := h
  exact ⟨r, t, hrun, k r t hp⟩

/-- An action that calls nothing. -/
theorem Ends.of_runOn {r : Except Error α} (h : ∀ call, (a call).runOn s = some (r, t))
    (hq : Q r t) : Ends a s Q :=
  ⟨r, t, ⟨0, fun more _ => h (Session.perform more)⟩, hq⟩

/-- An answer ends at once. -/
theorem Ends.pure {x : α} (h : Q (.ok x) s) : Ends (fun _ => Pure.pure x) s Q :=
  .of_runOn (fun _ => runOn_pure x s) h

/-- An error ends at once. -/
theorem Ends.throw {e : Error} (h : Q (.error e) s) :
    Ends (fun _ => (MonadExcept.throw e : Action α)) s Q :=
  .of_runOn (fun _ => runOn_throw e s) h

/-- Two actions that end, one after the other; the larger depth suffices for
both. -/
theorem Ends.bind (h : Ends a s P) (hok : ∀ x t, P (.ok x) t → Ends (f x) t R)
    (herror : ∀ e t, P (.error e) t → R (.error e) t) :
    Ends (fun call => a call >>= fun x => f x call) s R := by
  obtain ⟨r, t, ⟨fuel, hrun⟩, hp⟩ := h
  cases r with
  | error e =>
    refine ⟨.error e, t, ⟨fuel, fun more hmore => ?_⟩, herror e t hp⟩
    rw [runOn_bind, hrun more hmore]
  | ok x =>
    obtain ⟨r', u, ⟨fuel', hrun'⟩, hr⟩ := hok x t hp
    refine ⟨r', u, ⟨max fuel fuel', fun more hmore => ?_⟩, hr⟩
    rw [runOn_bind, hrun more (by omega)]
    exact hrun' more (by omega)

/-- A first action that succeeds with a known answer. -/
theorem Ends.bind_ok {x : α} {I : Session → Prop} (h : Ends a s fun r t => r = .ok x ∧ I t)
    (k : ∀ t, I t → Ends (f x) t R) : Ends (fun call => a call >>= fun x => f x call) s R := by
  refine .bind h ?_ ?_
  · rintro y t ⟨hy, ht⟩
    obtain rfl := Except.ok.inj hy
    exact k t ht
  · rintro e t ⟨he, -⟩
    cases he

/-- A first action that succeeds. -/
theorem Ends.bind_isOk {I : Session → Prop} (h : Ends a s fun r t => r.isOk ∧ I t)
    (k : ∀ x t, I t → Ends (f x) t R) : Ends (fun call => a call >>= fun x => f x call) s R := by
  refine .bind h ?_ ?_
  · exact fun x t ht => k x t ht.2
  · exact fun e t ht => absurd ht.1 (by simp [Except.isOk, Except.toBool])

/-- A first action that calls nothing and succeeds. -/
theorem Ends.next {b : Action α} {x : α} (h : b.runOn s = some (.ok x, t))
    (k : Ends (f x) t R) : Ends (fun call => b >>= fun x => f x call) s R := by
  obtain ⟨r, u, ⟨fuel, hrun⟩, hr⟩ := k
  refine ⟨r, u, ⟨fuel, fun more hmore => ?_⟩, hr⟩
  rw [runOn_bind, h]
  exact hrun more hmore

/-- A first action that calls nothing and fails. -/
theorem Ends.stop {b : Action α} {e : Error} (h : b.runOn s = some (.error e, t))
    (k : R (.error e) t) : Ends (fun call => b >>= fun x => f x call) s R := by
  refine .of_runOn (fun call => ?_) k
  rw [runOn_bind, h]

/-- An attempt ends where the action does. -/
theorem Ends.attempt {R : Except Error (Except Error α) → Session → Prop}
    (h : Ends a s fun r t => R (.ok r) t) : Ends (fun call => Action.attempt (a call)) s R := by
  obtain ⟨r, t, ⟨fuel, hrun⟩, hr⟩ := h
  refine ⟨.ok r, t, ⟨fuel, fun more hmore => ?_⟩, hr⟩
  rw [runOn_attempt, hrun more hmore, Option.map_some]

/-- Going on whatever comes of a first action. -/
theorem Ends.attempt_bind {f : Except Error α → Performer → Action β} (h : Ends a s P)
    (k : ∀ r t, P r t → Ends (f r) t R) :
    Ends (fun call => Action.attempt (a call) >>= fun r => f r call) s R := by
  refine .bind (P := fun r t => ∃ r', r = .ok r' ∧ P r' t)
    (.attempt (h.mono fun r t hr => ⟨r, rfl, hr⟩)) ?_ ?_
  · rintro r t ⟨r', hr, hp⟩
    obtain rfl := Except.ok.inj hr
    exact k r t hp
  · rintro e t ⟨r', hr, -⟩
    cases hr

/-- So does an ignored action. -/
theorem Ends.ignore {R : Except Error Unit → Session → Prop}
    (h : Ends a s fun _ t => R (.ok ()) t) : Ends (fun call => Action.ignore (a call)) s R :=
  .attempt_bind h fun _ _ hr => .pure hr

/-- Going on after an action whose answer is ignored. -/
theorem Ends.ignore_bind {f : Unit → Performer → Action β} (h : Ends a s P)
    (k : ∀ r t, P r t → Ends (f ()) t R) :
    Ends (fun call => Action.ignore (a call) >>= fun x => f x call) s R := by
  have hignore : Ends (fun call => Action.ignore (a call)) s fun r t => r = .ok () ∧ ∃ r', P r' t :=
    .ignore (h.mono fun r t hr => ⟨rfl, r, hr⟩)
  exact .bind_ok hignore fun t ⟨r, hr⟩ => k r t hr

/-- An operation within an action. -/
theorem Ends.call {op : Operation} {Q : Except Error op.Answer → Session → Prop}
    (h : Ends (fun call => Session.step call op) s Q) : Ends (fun call => call op) s Q := by
  obtain ⟨r, t, ⟨fuel, hrun⟩, hq⟩ := h
  refine ⟨r, t, ⟨fuel + 1, fun more hmore => ?_⟩, hq⟩
  obtain ⟨more, rfl⟩ : ∃ less, more = less + 1 := ⟨more - 1, by omega⟩
  exact hrun more (by omega)

/-- A loop that keeps `I`, where what is still to do counts. -/
theorem Ends.forM {f : β → Performer → Action Unit} {I : List β → Session → Prop}
    {Q : Except Error Unit → Session → Prop}
    (hstep : ∀ x xs s, I (x :: xs) s → Ends (f x) s fun r t => r = .ok () ∧ I xs t)
    (hend : ∀ s, I [] s → Q (.ok ()) s) :
    ∀ (xs : List β) (s : Session), I xs s → Ends (fun call => xs.forM fun x => f x call) s Q
  | [], s, h => .pure (hend s h)
  | x :: xs, s, h => by
    refine .bind (hstep x xs s h) ?_ ?_
    · exact fun _ t ht => forM hstep hend xs t ht.2
    · intro e t ht
      exact absurd ht.1 (by simp)

/-- A loop that keeps `I` whatever comes of each step; it ends at the first error. -/
theorem Ends.forM_keeps {f : β → Performer → Action Unit} {I : Session → Prop} {xs : List β}
    (hstep : ∀ x ∈ xs, ∀ s, I s → Ends (f x) s fun _ t => I t) :
    ∀ s, I s → Ends (fun call => xs.forM fun x => f x call) s fun _ t => I t := by
  induction xs with
  | nil => exact fun s hs => .pure hs
  | cons x xs ih =>
    intro s hs
    refine .bind (hstep x List.mem_cons_self s hs) ?_ fun _ t ht => ht
    exact fun _ t ht => ih (fun y hy => hstep y (List.mem_cons_of_mem _ hy)) t ht

/-- A loop whose steps have results, each related to what the step is for. -/
theorem Ends.mapM_forall₂ {γ : Type} {f : β → Performer → Action γ} {R : β → γ → Prop}
    {I : Session → Prop} {xs : List β}
    (hstep : ∀ x ∈ xs, ∀ s, I s → Ends (f x) s fun r t => ∃ y, r = .ok y ∧ R x y ∧ I t) :
    ∀ s, I s → Ends (fun call => xs.mapM fun x => f x call) s fun r t =>
      ∃ ys, r = .ok ys ∧ List.Forall₂ R xs ys ∧ I t := by
  induction xs with
  | nil => exact fun s hs => .pure ⟨_, rfl, .nil, hs⟩
  | cons x xs ih =>
    intro s hs
    simp only [List.mapM_cons]
    refine .bind (hstep x List.mem_cons_self s hs) ?_ ?_
    · rintro y t ⟨_, heq, hy, ht⟩
      cases heq
      refine .bind (ih (fun y hy => hstep y (List.mem_cons_of_mem _ hy)) t ht) ?_ ?_
      · rintro ys u ⟨_, heq, hys, hu⟩
        cases heq
        exact .pure ⟨_, rfl, .cons hy hys, hu⟩
      · rintro e u ⟨ys, heq, -⟩
        cases heq
    · rintro e t ⟨y, heq, -⟩
      cases heq

/-- A loop whose steps have known results. -/
theorem Ends.mapM {γ : Type} {f : β → Performer → Action γ} {g : β → γ} {I : Session → Prop}
    {xs : List β} (hstep : ∀ x ∈ xs, ∀ s, I s → Ends (f x) s fun r t => r = .ok (g x) ∧ I t)
    (s : Session) (hs : I s) :
    Ends (fun call => xs.mapM fun x => f x call) s fun r t => r = .ok (xs.map g) ∧ I t := by
  refine (Ends.mapM_forall₂ (R := fun x y => g x = y) (I := I) ?_ s hs).mono ?_
  · exact fun x hx t ht => (hstep x hx t ht).mono fun r u hr => ⟨g x, hr.1, rfl, hr.2⟩
  · rintro r t ⟨ys, rfl, hys, ht⟩
    have hmap : List.Forall₂ Eq (xs.map g) ys := List.forall₂_map_left_iff.2 hys
    rw [List.forall₂_eq_eq_eq] at hmap
    exact ⟨by rw [hmap], ht⟩

/-- What an operation comes to is its one answer. -/
theorem Ends.run {op : Operation} {Q : Except Error op.Answer → Session → Prop}
    (h : Ends (fun call => call op) s Q) :
    ∃ fuel r t, Session.run fuel op s = some (r, t) ∧ Q r t := by
  obtain ⟨r, t, ⟨fuel, hrun⟩, hq⟩ := h
  exact ⟨fuel, r, t, hrun fuel (Nat.le_refl fuel), hq⟩

/-- What is known of the end of an operation holds of every run of it. -/
theorem Ends.of_run {op : Operation} {Q : Except Error op.Answer → Session → Prop}
    (h : Ends (fun call => call op) s Q) {fuel : Nat} {r : Except Error op.Answer}
    (hrun : Session.run fuel op s = some (r, t)) : Q r t := by
  obtain ⟨fuel', r', t', hrun', hq⟩ := h.run
  obtain ⟨rfl, rfl⟩ := Prod.mk.inj (Session.run_unique hrun hrun')
  exact hq

/-- What an action comes to is its one answer, if it answers more often when what it
calls does. -/
theorem Ends.of_perform (h : Ends a s Q)
    (hrefines : ∀ {call call' : Performer}, call.Refines call' → (a call).Refines (a call'))
    {fuel : Nat} {r : Except Error α} (hrun : (a (Session.perform fuel)).runOn s = some (r, t)) :
    Q r t := by
  obtain ⟨r', t', ⟨fuel', hrun'⟩, hq⟩ := h
  have hmore := hrefines (Session.perform_refines (Nat.le_max_left fuel fuel')) s _ hrun
  have heq := hmore.symm.trans (hrun' (max fuel fuel') (Nat.le_max_right fuel fuel'))
  obtain ⟨rfl, rfl⟩ := Prod.mk.inj (Option.some.inj heq)
  exact hq

end Action

/-! ## §2. Small actions. -/

namespace Session

open LazyFields.Action

variable {s : Session} {n : Nat} {i : Instance}

/-- Looking at the session answers it. -/
@[simp] theorem runOn_get : (get : Action Session).runOn s = some (.ok s, s) := rfl

@[simp] theorem runOn_set (t : Session) : (set t : Action PUnit).runOn s = some (.ok ⟨⟩, t) := rfl

@[simp] theorem runOn_modify (f : Session → Session) :
    (modify f : Action PUnit).runOn s = some (.ok ⟨⟩, f s) := rfl

/-- A note goes to the journal. -/
@[simp] theorem runOn_note (e : Event) : (note e).runOn s = some (.ok (), s.record e) := rfl

/-- An instance that is there is found. -/
theorem runOn_getInstance (h : s.instance? n = some i) :
    (getInstance n).runOn s = some (.ok i, s) := by
  simp only [getInstance, runOn_bind, runOn_get, h, runOn_pure]

/-- A declared field is found. -/
theorem runOn_declared {field : String} {spec : FieldSpec} (h : s.instance? n = some i)
    (hfield : i.kind.info.field? field = some spec) :
    (declared n field).runOn s = some (.ok spec, s) := by
  simp only [declared, runOn_bind, runOn_getInstance h, hfield, runOn_pure]

/-- A field that is not declared is an error. -/
theorem runOn_declared_of_none {field : String} (h : s.instance? n = some i)
    (hfield : i.kind.info.field? field = none) :
    (declared n field).runOn s = some (.error (.unknownField i.kind.name field), s) := by
  simp only [declared, runOn_bind, runOn_getInstance h, hfield, runOn_throw]

/-- A session that runs is one that is required. -/
theorem runOn_requireLive (h : s.instance? n = some i) (hlive : s.live = true) :
    (requireLive n).runOn s = some (.ok (), s) := by
  simp only [requireLive, runOn_bind, runOn_getInstance h, runOn_get, hlive, if_true, runOn_pure]

/-- Nothing is required of a session that has ended. -/
theorem runOn_requireLive_of_ended (h : s.instance? n = some i) (hlive : s.live = false) :
    (requireLive n).runOn s
      = some (.error (.failure ("runtime of \"" ++ i.kind.name ++ "\" was dropped")), s) := by
  simp only [requireLive, runOn_bind, runOn_getInstance h, runOn_get, hlive, Bool.false_eq_true,
    if_false, runOn_throw]

/-- A change of one cache answers what the change does, and sets the cache. -/
theorem runOn_onCache {α : Type} (h : s.instance? n = some i) (f : Cache → α × Cache) :
    (onCache n f).runOn s = some (.ok (f i.cache).1, s.setCache n (f i.cache).2) := by
  simp only [onCache, runOn_bind, runOn_getInstance h, runOn_modify, runOn_pure]

/-- Storing an entry sets the cache. -/
theorem runOn_storeEntry (h : s.instance? n = some i) (field : String) (e : Entry) :
    (storeEntry n field e).runOn s = some (.ok (), s.setCache n (i.cache.store field e)) :=
  runOn_onCache h _

/-- Giving a claim back sets the cache. -/
theorem runOn_releaseField (h : s.instance? n = some i) (field : String) :
    (releaseField n field).runOn s = some (.ok (), s.setCache n (i.cache.release field)) :=
  runOn_onCache h _

/-- Looking at a cached result changes nothing. -/
theorem runOn_cached? (h : s.instance? n = some i) (field : String) :
    (cached? n field).runOn s = some (.ok (i.cache.result? field), s) := by
  simp only [cached?, runOn_bind, runOn_getInstance h, runOn_pure]

/-- Reading a field that has a result computes nothing. -/
theorem runOn_readField_of_result {call : Performer} {field : String} {spec : FieldSpec}
    {r : Except Error Value} (hi : s.instance? n = some i)
    (hspec : i.kind.info.field? field = some spec) (hr : i.cache.result? field = some r) :
    (readField call n field).runOn s = some (r, s) := by
  simp only [readField, runOn_bind, runOn_declared hi hspec, runOn_cached? hi, hr, runOn_ofResult]

/-- A field that was never declared is not read. -/
theorem runOn_readField_of_undeclared {call : Performer} {field : String}
    (hi : s.instance? n = some i) (hspec : i.kind.info.field? field = none) :
    (readField call n field).runOn s = some (.error (.unknownField i.kind.name field), s) := by
  simp only [readField, runOn_bind, runOn_declared_of_none hi hspec]

/-- A static field without a value is missing. -/
theorem runOn_readField_of_missing {call : Performer} {field : String} {spec : FieldSpec}
    (hi : s.instance? n = some i) (hspec : i.kind.info.field? field = some spec)
    (hstatic : spec.isStatic = true) (hr : i.cache.result? field = none) :
    (readField call n field).runOn s
      = some (.error (.missingStaticValue i.kind.name field), s) := by
  simp only [readField, runOn_bind, runOn_declared hi hspec, runOn_cached? hi, hr,
    runOn_getInstance hi, hstatic, if_true, runOn_throw]

/-- Reading computes nothing if there is a result, or none for good. -/
theorem runOn_readField_of_idle {field : String} (hi : s.instance? n = some i)
    (h : ∀ spec, i.kind.info.field? field = some spec →
      spec.isStatic = true ∨ (i.cache.result? field).isSome) :
    ∃ r, ∀ call, (readField call n field).runOn s = some (r, s) := by
  cases hspec : i.kind.info.field? field with
  | none => exact ⟨_, fun _ => runOn_readField_of_undeclared hi hspec⟩
  | some spec =>
    cases hr : i.cache.result? field with
    | some r => exact ⟨r, fun _ => runOn_readField_of_result hi hspec hr⟩
    | none =>
      have hstatic : spec.isStatic = true := (h spec hspec).resolve_right (by simp [hr])
      exact ⟨_, fun _ => runOn_readField_of_missing hi hspec hstatic hr⟩

end Session

end LazyFields
