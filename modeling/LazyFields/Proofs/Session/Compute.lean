/-
  LazyFields.Proofs.Session.Compute
  ────────────────────────────────
  **WHAT COMPUTING A FIELD COMES TO.**

  Computing a field settles, below it, some fields that were unset, and then
  the field itself; nothing else changes.  `FillsTo` is that frame.  Which
  outcomes the settled fields have is left to a relation `V` between nodes and
  outcomes, of which only `Closed` is asked: it holds of what is settled, and
  with the references of a field it holds of whatever the field yields from
  them.  Evaluation is such a relation if logic is pure, and so is "ready, once
  everything it needs is there" if logic never says that it is not.

    · `compute_ends` — computing settles the field, or leaves it unset and says
      that it is not ready
    · `recompute_ends` — a forced computation replaces the entry by what the
      references yield, or leaves it
-/
import LazyFields.Proofs.Session.Evaluation

namespace LazyFields

/-! ## §1. What may change. -/

namespace View

variable {D : Node → Prop} {V : Node → Outcome → Prop} {u v w : View} {x : Node}

/-- A node is settled with an outcome. -/
def Settled (v : View) (x : Node) (r : Outcome) : Prop :=
  ∃ e, v.slots x = some (.stored e) ∧ e.result? = some r ∧ r ≠ .error .notReady

/-- Stored entries are settled, and static fields have a value. -/
structure Stocked (v : View) : Prop where
  entry : ∀ {x e}, v.slots x = some (.stored e) → ∃ r, e.result? = some r ∧ r ≠ .error .notReady
  given : ∀ {x m spec}, v.outline.Declares x m spec → spec.isStatic = true →
    ∃ w, v.Settled x (.ok w)

/-- A computed field that is there. -/
def Computes (v : View) (x : Node) : Prop :=
  ∃ m spec, v.outline.Declares x m spec ∧ spec.isStatic = false

/-- Some unset computed fields in `D` were settled with outcomes in `V`. -/
structure Fills (D : Node → Prop) (V : Node → Outcome → Prop) (v w : View) : Prop where
  outline : w.outline = v.outline
  watches : w.watches = v.watches
  slots : ∀ x, w.slots x = v.slots x
    ∨ v.slots x = none ∧ v.Computes x ∧ D x ∧ ∃ r, w.Settled x r ∧ V x r

/-- The same, and only below a rank. -/
structure FillsTo (rank : String × String → Nat) (k : Nat) (D : Node → Prop)
    (V : Node → Outcome → Prop) (v w : View) : Prop extends Fills D V v w where
  above : ∀ x, k ≤ v.outline.rank rank x → w.slots x = v.slots x

/-- No field below a rank is being computed. -/
def Free (rank : String × String → Nat) (k : Nat) (v : View) : Prop :=
  ∀ x previous, v.outline.rank rank x < k → v.slots x ≠ some (.computing previous)

/-- No field is being computed. -/
def Quiet (v : View) : Prop := ∀ x previous, v.slots x ≠ some (.computing previous)

/-- The nodes in `D` contain what they refer to, and the outcomes in `V` what
is settled there, and with the references of a node what it yields from
them. -/
structure Closed (v : View) (D : Node → Prop) (V : Node → Outcome → Prop) : Prop where
  target : ∀ {x m spec reference y}, v.outline.Declares x m spec → D x →
    reference ∈ spec.refs → v.outline.target x.1 reference = some y → D y
  known : ∀ {x r}, v.outline.Has x → D x → v.result? x = some r → V x r
  yields : ∀ {x r}, v.Computes x → D x → v.result? x = none → v.outline.Yields V x r → V x r

/-- A settled field has its result. -/
theorem Settled.result? {r : Outcome} (h : v.Settled x r) : v.result? x = some r := by
  obtain ⟨e, he, hr, -⟩ := h
  rw [result?_of_stored he, hr]

/-- Only the slot counts. -/
theorem Settled.congr {r : Outcome} (h : v.Settled x r) (hslot : w.slots x = v.slots x) :
    w.Settled x r := by
  obtain ⟨e, he, hr⟩ := h
  exact ⟨e, hslot.trans he, hr⟩

/-- A field that computes is there. -/
theorem Computes.has (h : v.Computes x) : v.outline.Has x := by
  obtain ⟨m, spec, hx, -⟩ := h
  exact ⟨m, spec, hx⟩

/-- Only the outline counts. -/
theorem Computes.congr (h : v.Computes x) (ho : w.outline = v.outline) : w.Computes x := by
  unfold Computes
  rw [ho]
  exact h

/-! ### Frames in a row. -/

theorem Fills.refl (D : Node → Prop) (V : Node → Outcome → Prop) (v : View) : Fills D V v v :=
  ⟨rfl, rfl, fun _ => .inl rfl⟩

/-- What fills and fills again fills. -/
theorem Fills.trans (h : Fills D V u v) (k : Fills D V v w) : Fills D V u w where
  outline := k.outline.trans h.outline
  watches := k.watches.trans h.watches
  slots x := by
    rcases k.slots x with hk | ⟨hnone, hx, hD, hr⟩
    · rcases h.slots x with hh | ⟨hnone, hx, hD, r, hset, hr⟩
      · exact .inl (hk.trans hh)
      · exact .inr ⟨hnone, hx, hD, r, hset.congr hk, hr⟩
    · rcases h.slots x with hh | ⟨-, -, -, r, ⟨e, he, -⟩, -⟩
      · exact .inr ⟨hh ▸ hnone, hx.congr h.outline.symm, hD, hr⟩
      · simp [hnone] at he

/-- What is settled stays settled. -/
theorem Fills.settled (h : Fills D V v w) {r : Outcome} (hx : v.Settled x r) : w.Settled x r := by
  rcases h.slots x with hs | ⟨hnone, -⟩
  · exact hx.congr hs
  · obtain ⟨e, he, -⟩ := hx
    simp [hnone] at he

/-- A result that is there stays. -/
theorem Fills.result? (h : Fills D V v w) {r : Outcome} (hx : v.result? x = some r) :
    w.result? x = some r := by
  rcases h.slots x with hs | ⟨hnone, -⟩
  · rwa [result?_congr hs]
  · simp [View.result?, hnone] at hx

/-- Filling keeps a view stocked. -/
theorem Fills.stocked (h : Fills D V v w) (hv : v.Stocked) : w.Stocked where
  entry {x e} hx := by
    rcases h.slots x with hs | ⟨-, -, -, r, ⟨e', he', hr⟩, -⟩
    · exact hv.entry (hs ▸ hx)
    · obtain rfl : e' = e := by simpa [he'] using hx
      exact ⟨r, hr⟩
  given {x m spec} hx hstatic := by
    rw [h.outline] at hx
    obtain ⟨a, ha⟩ := hv.given hx hstatic
    exact ⟨a, h.settled ha⟩

/-- Whatever fills `v` with outcomes in `V` leaves `V` closed. -/
theorem Fills.closed (h : Fills D V v w) (hv : v.Closed D V) : w.Closed D V where
  target {x m spec reference y} hx := by
    rw [h.outline] at hx ⊢
    exact hv.target hx
  known {x r} hx hD hr := by
    rw [h.outline] at hx
    rcases h.slots x with hs | ⟨-, -, -, r', hset, hV⟩
    · exact hv.known hx hD ((result?_congr hs).symm.trans hr)
    · obtain rfl : r' = r := Option.some.inj (hset.result?.symm.trans hr)
      exact hV
  yields {x r} hx hD hnone hr := by
    rw [h.outline] at hr
    refine hv.yields (hx.congr h.outline.symm) hD ?_ hr
    cases hres : v.result? x with
    | none => rfl
    | some r' => simp [h.result? hres] at hnone

theorem FillsTo.refl (rank : String × String → Nat) (k : Nat) (D : Node → Prop)
    (V : Node → Outcome → Prop) (v : View) : FillsTo rank k D V v v :=
  ⟨.refl D V v, fun _ _ => rfl⟩

/-- A result that is put settles the field. -/
theorem settled_put (v : View) (x : Node) {r : Outcome} (hr : r ≠ .error .notReady) (now : Int) :
    (v.put x (some (.stored (Entry.ofOutcome r now)))).Settled x r :=
  ⟨_, put_slots_self .., Entry.result?_ofOutcome r now, hr⟩

section FillsTo

variable {rank : String × String → Nat} {k l : Nat}

/-- In the end the node itself is settled. -/
theorem FillsTo.settle (h : FillsTo rank k D V v w) (hx : v.Computes x) (hD : D x)
    (hnone : v.slots x = none) {r : Outcome} (hr : V x r) {s : Option Slot}
    (hset : (w.put x s).Settled x r) (hkl : k ≤ l) (hl : v.outline.rank rank x < l) :
    FillsTo rank l D V v (w.put x s) where
  outline := h.outline
  watches := h.watches
  slots y := by
    by_cases hy : y = x
    · subst hy
      exact .inr ⟨hnone, hx, hD, r, hset, hr⟩
    · rw [put_slots_ne w hy]
      refine (h.slots y).imp id fun ⟨hnone, hy', hD, r, hset', hr⟩ => ⟨hnone, hy', hD, r, ?_, hr⟩
      exact hset'.congr (put_slots_ne w hy s)
  above y hk := by
    have hy : y ≠ x := by
      rintro rfl
      omega
    rw [put_slots_ne w hy, h.above y (by omega)]

/-- Filling up to a rank, and again up to it. -/
theorem FillsTo.trans (h : FillsTo rank k D V u v) (h' : FillsTo rank k D V v w) :
    FillsTo rank k D V u w :=
  ⟨h.toFills.trans h'.toFills, fun x hx =>
    (h'.above x (by rw [h.outline]; exact hx)).trans (h.above x hx)⟩

/-- Filling up to a rank is filling up to any larger one. -/
theorem FillsTo.mono (h : FillsTo rank k D V v w) (hkl : k ≤ l) : FillsTo rank l D V v w :=
  ⟨h.toFills, fun x hx => h.above x (by omega)⟩

/-- A quiet view is free below every rank. -/
theorem Quiet.free (h : v.Quiet) (rank : String × String → Nat) (k : Nat) : v.Free rank k :=
  fun x previous _ => h x previous

/-- A view that is free below a rank is free below any smaller one. -/
theorem Free.mono (h : v.Free rank l) (hkl : k ≤ l) : v.Free rank k :=
  fun x previous hx => h x previous (by omega)

/-- Filling takes no field. -/
theorem Fills.free (h : Fills D V v w) (hv : v.Free rank k) : w.Free rank k := by
  intro x previous hx hslot
  rw [h.outline] at hx
  rcases h.slots x with hs | ⟨-, -, -, r, ⟨e, he, -⟩, -⟩
  · exact hv x previous hx (hs ▸ hslot)
  · simp [hslot] at he

/-- A claim of `x` leaves the view below it as it is. -/
theorem Free.put (h : v.Free rank k) (hx : k ≤ v.outline.rank rank x) (s : Option Slot) :
    (v.put x s).Free rank k := by
  intro y previous hy
  rw [put_outline] at hy
  have hne : y ≠ x := by
    rintro rfl
    omega
  rw [put_slots_ne v hne]
  exact h y previous hy

end FillsTo

/-- A claim keeps a view stocked. -/
theorem Stocked.put_computing (h : v.Stocked) (hx : v.Computes x) (previous : Option Entry) :
    (v.put x (some (.computing previous))).Stocked where
  entry {y e} hy := by
    by_cases hne : y = x
    · subst hne
      simp at hy
    · rw [put_slots_ne v hne] at hy
      exact h.entry hy
  given {y m spec} hy hstatic := by
    obtain ⟨w, hw⟩ := h.given hy hstatic
    refine ⟨w, hw.congr (put_slots_ne v ?_ _)⟩
    rintro rfl
    obtain ⟨m', spec', hx, hcomputed⟩ := hx
    obtain ⟨rfl, rfl⟩ := hy.eq hx
    simp [hcomputed] at hstatic

/-- Only outline and results count. -/
theorem Closed.congr (h : v.Closed D V) (ho : w.outline = v.outline)
    (hr : ∀ y, w.result? y = v.result? y) : w.Closed D V where
  target hx := by
    rw [ho] at hx ⊢
    exact h.target hx
  known {y _} hy hD hres := h.known (ho ▸ hy) hD ((hr y).symm.trans hres)
  yields {y _} hy hD hnone hyields :=
    h.yields (hy.congr ho.symm) hD ((hr y).symm.trans hnone) (ho ▸ hyields)

end View

/-! ## §2. References of a session. -/

namespace Session

open LazyFields.Action

variable {s t : Session} {x y : Node} {m : Member} {spec : FieldSpec}

/-- An instance is looked up under the name that its kind has. -/
theorem toOption_find (kind id : String) :
    (s.find kind id).toOption = (s.catalog.get kind).toOption.bind fun k =>
      s.published.get? (instanceAddress k.name id) := by
  unfold find
  cases s.catalog.get kind with
  | error e => rfl
  | ok k =>
    simp only [Bind.bind, Except.bind, Except.toOption, Option.bind]
    cases s.published.get? (instanceAddress k.name id) <;> rfl

/-- Where a reference of a declared field points is found out without fail, also
if the instance was discarded. -/
theorem runOn_targetOf_of_member (hlawful : s.catalog.Lawful) (hlive : s.live = true)
    (hm : s.view.outline.member? x.1 = some m)
    (hkind : s.catalog.kinds.get? m.kind.name = some m.kind)
    (hfield : m.kind.info.field? x.2 = some spec) {reference : String}
    (href : reference ∈ spec.refs) :
    (targetOf x.1 reference).runOn s
      = some (.ok ⟨(s.view.outline.target x.1 reference).map Prod.fst,
          (referent m.kind.name reference).2, m.targetAddress reference⟩, s) := by
  obtain ⟨i, hi, rfl⟩ := instance_of_member? hm
  obtain ⟨spec', hknown⟩ := hlawful.known ((Catalog.field?_of_kind hkind).trans hfield) href
  unfold targetOf Outline.target Member.targetAddress
  unfold referent at hknown ⊢
  rcases hsplit : splitReference reference with ⟨_ | kind, field⟩
  · simp only [runOn_bind, runOn_getInstance hi, runOn_pure]
    rfl
  · simp only [hsplit] at hknown
    -- a reference with a dot is known, so there is a kind of that name
    obtain ⟨k, hk, -⟩ := Option.bind_eq_some_iff.1 hknown
    have hget : s.catalog.get kind = .ok k := Catalog.get_of_kind hk
    have hname : k.name = kind := hlawful.name hk
    have hfind : (s.find kind "").toOption = s.published.get? (instanceAddress kind "") := by
      rw [toOption_find, hget, ← hname]
      rfl
    simp only [runOn_bind, runOn_requireLive hi hlive, runOn_get, hget, runOn_ofResult,
      runOn_pure, hname, hfind]
    simp only [view, outline, Option.map_map]
    cases s.published.get? (instanceAddress kind "") <;> rfl

/-- A reference of a field that is shown leads to its target. -/
theorem runOn_targetOf_of_shows (ho : s.view.outline.Upright)
    (hx : s.view.outline.Shows x m spec) {reference : String} (href : reference ∈ spec.refs) :
    (targetOf x.1 reference).runOn s
      = some (.ok ⟨(s.view.outline.target x.1 reference).map Prod.fst,
          (referent m.kind.name reference).2, m.targetAddress reference⟩, s) :=
  runOn_targetOf_of_member ho.lawful ho.live hx.member hx.kind hx.field href

/-- A reference of a declared field leads to its target. -/
theorem runOn_targetOf (ho : s.view.outline.Sound) (hx : s.view.outline.Declares x m spec)
    {reference : String} (href : reference ∈ spec.refs) :
    (targetOf x.1 reference).runOn s
      = some (.ok ⟨(s.view.outline.target x.1 reference).map Prod.fst,
          (referent m.kind.name reference).2, m.targetAddress reference⟩, s) :=
  runOn_targetOf_of_shows ho.upright (ho.shows hx) href

/-- A settled field is read as it is. -/
theorem field_ends (hm : s.view.outline.member? x.1 = some m)
    (hfield : m.kind.info.field? x.2 = some spec) {r : Outcome}
    (hr : s.view.result? x = some r) :
    Ends (fun call => call (.field x.1 x.2)) s fun a t => a = r ∧ t = s := by
  obtain ⟨i, hi, rfl⟩ := instance_of_member? hm
  have hcached : i.cache.result? x.2 = some r := by
    rw [← result?_of_instance hi]
    exact hr
  exact .call (.of_runOn (fun _ => runOn_readField_of_result hi hfield hcached) ⟨rfl, rfl⟩)

/-! ## §3. Ending a computation. -/

/-- The answer to a computation that ended with an outcome: what fails says so,
unless it failed before. -/
def Answers (r : Outcome) (a : Except Error Unit) : Prop :=
  a = .ok () ∨ ∃ e, r = .error e ∧ a = .error e

/-- What is left of a computation of `x` on the view `v` that ended with an
outcome: it is stored, or the slot is what it was before. -/
def Concluded (v : View) (x : Node) (previous : Option Slot) (r : Outcome)
    (a : Except Error Unit) (w : View) : Prop :=
  (r = .error .notReady ∧ a = .error .notReady ∧ w = v.put x previous)
    ∨ (r ≠ .error .notReady ∧ Answers r a
      ∧ ∃ now, w = v.put x (some (.stored (Entry.ofOutcome r now))))

/-- A claim that is given up fails with the given error. -/
theorem runOn_abandon {i : Instance} (hi : s.instance? x.1 = some i) (e : Error) :
    (abandon x.1 x.2 e).runOn s = some (.error e, s.setCache x.1 (i.cache.release x.2)) := by
  simp only [abandon, runOn_bind, runOn_releaseField hi, runOn_throw]

/-- The signal gives up the claim. -/
theorem runOn_conclude_notReady {i : Instance} (hi : s.instance? x.1 = some i) :
    (conclude x.1 x.2 (.error .notReady)).runOn s
      = some (.error .notReady, s.setCache x.1 (i.cache.release x.2)) := by
  rw [← runOn_abandon hi .notReady]
  simp only [conclude, runOn_bind, runOn_get]

/-- Any other outcome is stored, and is the answer. -/
theorem runOn_conclude {i : Instance} (hi : s.instance? x.1 = some i) {r : Outcome}
    (hr : r ≠ .error .notReady) :
    (conclude x.1 x.2 r).runOn s = some (r.map fun _ => (),
      s.setCache x.1 (i.cache.store x.2 (Entry.ofOutcome r s.now))) := by
  unfold conclude
  rw [runOn_bind_ok runOn_get]
  cases r with
  | ok w => exact runOn_storeEntry hi x.2 _
  | error e =>
    have hstore : (do
        storeEntry x.1 x.2 (Entry.ofError e s.now)
        throw e : Action Unit).runOn s = some (.error e,
          s.setCache x.1 (i.cache.store x.2 (Entry.ofError e s.now))) := by
      rw [runOn_bind_ok (runOn_storeEntry hi x.2 _), runOn_throw]
    -- the signal has a case of its own, every other error is stored
    cases e with
    | notReady => exact absurd rfl hr
    | _ => exact hstore

/-- The session after the logic of a field was called, if there is any. -/
def called (s : Session) (m : Member) (field : String) (values : List Value) : Session :=
  if (m.kind.compute? field).isSome then s.record (.computed m.kind.name m.id field values) else s

/-- Running logic leaves a note, which is not seen. -/
@[simp] theorem view_called (s : Session) (m : Member) (field : String) (values : List Value) :
    (s.called m field values).view = s.view := by
  unfold called
  split <;> rfl

@[simp] theorem now_called (s : Session) (m : Member) (field : String) (values : List Value) :
    (s.called m field values).now = s.now := by
  unfold called
  split <;> rfl

/-- The note leaves the instances alone. -/
theorem instance?_called (s : Session) (m : Member) (field : String) (values : List Value)
    (n : Nat) : (s.called m field values).instance? n = s.instance? n := by
  unfold called
  split <;> rfl

/-- **Logic that asks nothing is called once**, and what it makes of the values is what the
computation ends with. -/
theorem runOn_runLogic {i : Instance} (hi : s.instance? x.1 = some i)
    (halone : ∀ {logic}, i.kind.compute? x.2 = some logic →
      ∀ self values number, (logic self values number).IsPassive)
    (values : List Value) (call : Performer) :
    (runLogic call x.1 spec x.2 values).runOn s
      = (conclude x.1 x.2 (i.member.outcome x spec values
          ((s.called i.member x.2 values).computeCalls i.kind.name x.2))).runOn
        (s.called i.member x.2 values) := by
  unfold runLogic called Member.outcome
  rw [runOn_bind_ok (runOn_getInstance hi)]
  cases hlogic : i.kind.compute? x.2 with
  | none => simp only [Instance.member, hlogic, Option.isSome_none, Bool.false_eq_true, if_false]
  | some logic =>
    simp only [Instance.member, hlogic, Option.isSome_some, if_true]
    rw [runOn_bind_ok (runOn_note _), runOn_bind_ok runOn_get]
    generalize (s.record _).computeCalls i.kind.name x.2 = number
    obtain ⟨r, hr⟩ := halone hlogic ⟨x.1, i.kind.name, i.id⟩ values number
    rw [hr, Program.run, runOn_bind_ok (x := r) (runOn_attempt _ _), Program.result]

/-- A claim that is given up leaves the slot as it was before. -/
theorem view_release {i : Instance} (hi : s.instance? x.1 = some i) {previous : Option Entry}
    (hslot : s.view.slots x = some (.computing previous)) :
    (s.setCache x.1 (i.cache.release x.2)).view = s.view.put x (previous.map .stored) := by
  have hclaimed : i.cache.slot? x.2 = some (.computing previous) :=
    (slots_of_instance hi x.2).symm.trans hslot
  rw [Cache.release, hclaimed]
  exact view_setSlot hi x.2 _

/-- A claim that is given back leaves what was there before it. -/
theorem abandon_ends (hm : s.view.outline.member? x.1 = some m) {previous : Option Entry}
    (hslot : s.view.slots x = some (.computing previous)) (e : Error) :
    Ends (fun _ => abandon x.1 x.2 e) s fun a t =>
      a = .error e ∧ t.view = s.view.put x (previous.map .stored) := by
  obtain ⟨i, hi, rfl⟩ := instance_of_member? hm
  exact .of_runOn (fun _ => runOn_abandon hi e) ⟨rfl, view_release hi hslot⟩

/-- A claim ends with the result stored, or given back if nothing is ready. -/
theorem conclude_ends (hm : s.view.outline.member? x.1 = some m) {previous : Option Entry}
    (hslot : s.view.slots x = some (.computing previous)) (r : Outcome) :
    Ends (fun _ => conclude x.1 x.2 r) s fun a t =>
      Concluded s.view x (previous.map .stored) r a t.view := by
  obtain ⟨i, hi, rfl⟩ := instance_of_member? hm
  by_cases hr : r = .error .notReady
  · subst hr
    have habandon := abandon_ends hm hslot .notReady
    simp only [Ends, runOn_abandon hi] at habandon
    simp only [Ends, runOn_conclude_notReady hi]
    exact habandon.imp fun a h => h.imp fun t h => ⟨h.1, .inl ⟨rfl, h.2⟩⟩
  · refine .of_runOn (fun _ => runOn_conclude hi hr) (.inr ⟨hr, ?_, s.now, view_setSlot hi x.2 _⟩)
    cases r with
    | ok w => exact .inl rfl
    | error e => exact .inr ⟨e, rfl, rfl⟩

/-- Logic that asks nothing runs to its end, and its result is concluded. -/
theorem runLogic_ends (hm : s.view.outline.member? x.1 = some m)
    (halone : ∀ {logic}, m.kind.compute? x.2 = some logic →
      ∀ self values number, (logic self values number).IsPassive) {previous : Option Entry}
    (hslot : s.view.slots x = some (.computing previous)) (values : List Value) :
    Ends (fun call => runLogic call x.1 spec x.2 values) s fun a t => ∃ number,
      Concluded s.view x (previous.map .stored) (m.outcome x spec values number) a t.view := by
  obtain ⟨i, hi, rfl⟩ := instance_of_member? hm
  have hcalled := conclude_ends (s := s.called i.member x.2 values) (x := x) (m := i.member)
    (by simpa using hm) (by simpa using hslot) (i.member.outcome x spec values
      ((s.called i.member x.2 values).computeCalls i.kind.name x.2))
  simp only [Ends, runOn_runLogic hi halone, view_called] at hcalled ⊢
  exact hcalled.imp fun a h => h.imp fun t h => ⟨h.1, _, h.2⟩

/-! ## §4. Settling references. -/

/-- What is made of the values of references. -/
def gathered : Except Error (List Value) → Gathered
  | .ok values => .values values
  | .error .notReady => .blocked .notReady
  | .error e => .failed e

/-- A node was computed: it is settled, or unset because it is not ready, and
the answer says which. -/
def Attempted (V : Node → Outcome → Prop) (x : Node) (a : Except Error Unit) (w : View) : Prop :=
  ∃ r, V x r ∧ ((r = .error .notReady ∧ a = .error .notReady ∧ w.slots x = none)
    ∨ (w.Settled x r ∧ Answers r a))

/-- A node was computed, and nothing changed but nodes below `k`. -/
def Computed (D : Node → Prop) (V : Node → Outcome → Prop) (rank : String × String → Nat)
    (k : Nat) (v : View) (x : Node) (a : Except Error Unit) (w : View) : Prop :=
  v.FillsTo rank k D V w ∧ Attempted V x a w

section Compute

variable {D : Node → Prop} {V : Node → Outcome → Prop} {rank : String × String → Nat}

/-- A node that is computed and read gives one of its outcomes. -/
theorem compute_field_ends {k : Nat} (hy : s.view.outline.Has y)
    (hcompute : Ends (fun call => call (.compute y.1 y.2)) s fun a t =>
      Computed D V rank k s.view y a t.view) :
    Ends (fun call => do call (.compute y.1 y.2); call (.field y.1 y.2)) s fun a t =>
      s.view.FillsTo rank k D V t.view ∧ V y a := by
  refine .bind hcompute ?_ ?_
  · rintro ⟨⟩ t ⟨hfills, r, hV, ⟨-, ha, -⟩ | ⟨hset, -⟩⟩
    · simp at ha
    · obtain ⟨m, spec, hy⟩ := hy
      rw [← hfills.outline] at hy
      refine (field_ends hy.member hy.field hset.result?).mono ?_
      rintro a u ⟨rfl, rfl⟩
      exact ⟨hfills, hV⟩
  · rintro e t ⟨hfills, r, hV, ⟨rfl, ha, -⟩ | ⟨-, ha | ⟨e', rfl, ha⟩⟩⟩
    · cases ha
      exact ⟨hfills, hV⟩
    · simp at ha
    · cases ha
      exact ⟨hfills, hV⟩

/-- References are settled from left to right, given what each reads as. -/
theorem gather_ends_of {I : Session → Prop} {o : Outline} (ho : o.Upright) (hx : o.Shows x m spec)
    (hI : ∀ t, I t → t.view.outline = o)
    (hread : ∀ reference ∈ spec.refs, ∀ y, o.target x.1 reference = some y → ∀ t, I t →
      Ends (fun call => do call (.compute y.1 y.2); call (.field y.1 y.2)) t fun r u =>
        I u ∧ V y r) :
    ∀ (refs : List String), (∀ reference ∈ refs, reference ∈ spec.refs) → ∀ s, I s →
      Ends (fun call => gather call x.1 refs) s fun a t => I t ∧
        ∃ g, Collects V (refs.map (o.target x.1)) g ∧ a = .ok (gathered g) := by
  intro refs
  induction refs with
  | nil => exact fun _ s hs => .pure ⟨hs, .ok [], .nil, rfl⟩
  | cons reference refs ih =>
    intro hrefs s hs
    have href := hrefs reference List.mem_cons_self
    have hso := hI s hs
    have htarget := runOn_targetOf_of_shows (hso ▸ ho) (hso ▸ hx) href
    rw [hso] at htarget
    unfold gather
    refine .next ((runOn_attempt _ s).trans (by rw [htarget]; rfl)) ?_
    cases hy : o.target x.1 reference with
    | none =>
      refine .pure ⟨hs, .error .notReady, ?_, rfl⟩
      rw [List.map_cons, hy]
      exact .missing _
    | some y =>
      obtain ⟨m', spec', -, -, hname⟩ := ho.has_target hx href hy
      simp only [Option.map_some, hname]
      refine .attempt_bind (hread reference href y hy s hs) ?_
      rintro r t ⟨ht, hV⟩
      rw [List.map_cons, hy]
      -- a reference without a value ends the loop, and what was gathered is given up
      cases r with
      | ok w =>
        refine .bind (ih (fun r hr => hrefs r (List.mem_cons_of_mem _ hr)) t ht) ?_ ?_
        · rintro gathered u ⟨hu, g, hg, hgathered⟩
          obtain rfl : gathered = Session.gathered g := by simpa using hgathered
          cases g with
          | ok values => exact .pure ⟨hu, _, .more hV hg, rfl⟩
          | error e => cases e <;> exact .pure ⟨hu, _, .more hV hg, rfl⟩
        · rintro e u ⟨-, g, -, h⟩
          simp at h
      | error e => cases e <;> exact .pure ⟨ht, _, .stop _ hV, rfl⟩

/-- References are settled from left to right, given how each is computed. -/
theorem gather_ends {k : Nat} {v : View} {o : Outline} (hv : v.outline = o) (ho : o.Sound)
    (hx : o.Declares x m spec)
    (hcompute : ∀ reference ∈ spec.refs, ∀ y, o.target x.1 reference = some y →
      ∀ t : Session, v.FillsTo rank k D V t.view →
        Ends (fun call => call (.compute y.1 y.2)) t fun a u =>
          Computed D V rank k t.view y a u.view)
    (refs : List String) (hrefs : ∀ reference ∈ refs, reference ∈ spec.refs) (s : Session)
    (hs : v.FillsTo rank k D V s.view) :
    Ends (fun call => gather call x.1 refs) s fun a t => v.FillsTo rank k D V t.view ∧
      ∃ g, Collects V (refs.map (o.target x.1)) g ∧ a = .ok (gathered g) := by
  refine gather_ends_of (I := fun t => v.FillsTo rank k D V t.view) ho.upright (ho.shows hx)
    (fun t ht => ht.outline.trans hv) ?_ refs hrefs s hs
  intro reference href y hy t ht
  have hhas : t.view.outline.Has y := (ht.outline.trans hv) ▸ ho.has_of_target hx href hy
  refine (compute_field_ends hhas (hcompute reference href y hy t ht)).mono ?_
  rintro r u ⟨hu, hV⟩
  exact ⟨ht.trans hu, hV⟩

/-! ## §5. Computing. -/

/-- Whatever is done to the view of a claimed node is done to the view without
the claim. -/
theorem fillsTo_of_claimed {k : Nat} {v w : View} {claimed : Option Slot}
    (h : (v.put x claimed).FillsTo rank k D V w) : v.FillsTo rank k D V (w.put x (v.slots x)) where
  outline := h.outline
  watches := h.watches
  slots y := by
    by_cases hy : y = x
    · subst hy
      exact .inl (View.put_slots_self ..)
    · rw [View.put_slots_ne w hy]
      have hs := h.slots y
      rw [View.put_slots_ne v hy] at hs
      refine hs.imp id fun ⟨hnone, hcomputes, hD, r, hset, hr⟩ =>
        ⟨hnone, hcomputes, hD, r, ?_, hr⟩
      exact hset.congr (View.put_slots_ne w hy _)
  above y hk := by
    by_cases hy : y = x
    · subst hy
      exact View.put_slots_self ..
    · rw [View.put_slots_ne w hy, h.above y hk, View.put_slots_ne v hy]

/-- What was in the slot before the result does not matter. -/
theorem concluded_put {v : View} {previous : Option Slot} {r : Outcome}
    {a : Except Error Unit} {w : View} (h : Concluded v x previous r a w) (s' : Option Slot) :
    Concluded (v.put x s') x previous r a w := by
  simpa only [Concluded, View.put_put] using h

/-- A node of an outline is computed as `Computed` says, on every session of
that outline in which nothing up to it is being computed. -/
def Computable (D : Node → Prop) (V : Node → Outcome → Prop) (rank : String × String → Nat)
    (o : Outline) (x : Node) : Prop :=
  ∀ s : Session, s.view.outline = o → s.view.Stocked → s.view.Closed D V →
    s.view.Free rank (o.rank rank x + 1) →
    Ends (fun call => call (.compute x.1 x.2)) s fun a t =>
      Computed D V rank (o.rank rank x + 1) s.view x a t.view

/-- The claim of a node that is granted, with the entry that readers go on
seeing. -/
theorem exists_claim {i : Instance} (hi : s.instance? x.1 = some i) {force : Bool}
    (hfree : ∀ previous, s.view.slots x ≠ some (.computing previous))
    (hclaim : force = true ∨ ∀ e, s.view.slots x = some (.stored e) → e.isSettled = false) :
    ∃ previous : Option Entry, previous.map Slot.stored = s.view.slots x
      ∧ i.cache.claim x.2 force
        = (.acquired, i.cache.setSlot x.2 (some (.computing previous))) := by
  have hslot := slots_of_instance hi x.2
  unfold Cache.claim
  cases hc : i.cache.slot? x.2 with
  | none => exact ⟨none, (hslot.trans hc).symm, rfl⟩
  | some sl =>
    rw [hc] at hslot
    cases sl with
    | computing previous => exact absurd hslot (hfree previous)
    | stored e =>
      have hgranted : (!force && e.isSettled) = false := by
        cases hclaim with
        | inl hforce => rw [hforce]; rfl
        | inr hopen => rw [hopen e hslot, Bool.and_false]
      refine ⟨some e, hslot.symm, ?_⟩
      simp only [hgranted, Bool.false_eq_true, if_false]

/-- A settled entry is found, and nothing is claimed. -/
theorem claim_of_stored {i : Instance} (hi : s.instance? x.1 = some i) {e : Entry}
    (hslot : s.view.slots x = some (.stored e)) (hsettled : e.isSettled = true) :
    i.cache.claim x.2 false = (.ready e, i.cache) := by
  have hcache : i.cache.slot? x.2 = some (.stored e) := (slots_of_instance hi x.2).symm.trans hslot
  unfold Cache.claim
  simp only [hcache, hsettled]
  rfl

/-- A field that was never declared is not computed. -/
theorem compute_undeclared_ends {i : Instance} (hi : s.instance? x.1 = some i)
    (hfield : i.kind.info.field? x.2 = none) :
    Ends (fun call => call (.compute x.1 x.2)) s fun a t =>
      a = .error (.unknownField i.kind.name x.2) ∧ t = s := by
  refine .call ?_
  show Ends (fun call => computeField call x.1 x.2 false) s _
  unfold computeField
  exact .stop (runOn_declared_of_none hi hfield) ⟨rfl, rfl⟩

/-- A static field is not computed. -/
theorem compute_static_ends {i : Instance} (hi : s.instance? x.1 = some i)
    (hfield : i.kind.info.field? x.2 = some spec) (hstatic : spec.isStatic = true) :
    Ends (fun call => call (.compute x.1 x.2)) s fun a t => a = .ok () ∧ t = s := by
  refine .call ?_
  show Ends (fun call => computeField call x.1 x.2 false) s _
  unfold computeField
  refine .next (runOn_declared hi hfield) ?_
  simp only [hstatic, if_true]
  exact .pure ⟨rfl, rfl⟩

/-- A field with a settled entry is not computed again. -/
theorem compute_stored_ends {i : Instance} (hi : s.instance? x.1 = some i)
    (hfield : i.kind.info.field? x.2 = some spec) (hcomputed : spec.isStatic = false) {e : Entry}
    (hslot : s.view.slots x = some (.stored e)) (hsettled : e.isSettled = true) :
    Ends (fun call => call (.compute x.1 x.2)) s fun a t => a = .ok () ∧ t = s := by
  have hclaim : (onCache x.1 (·.claim x.2 false)).runOn s = some (.ok (.ready e), s) := by
    rw [runOn_onCache hi, claim_of_stored hi hslot hsettled, setCache_self hi]
  refine .call ?_
  show Ends (fun call => computeField call x.1 x.2 false) s _
  unfold computeField
  refine .next (runOn_declared hi hfield) ?_
  simp only [hcomputed, Bool.false_eq_true, if_false]
  exact .next hclaim (.pure ⟨rfl, rfl⟩)

/-- Readers do not see a claim. -/
theorem result?_claimed {v : View} {previous : Option Entry}
    (h : previous.map Slot.stored = v.slots x) (y : Node) :
    (v.put x (some (.computing previous))).result? y = v.result? y := by
  by_cases hy : y = x
  · subst hy
    unfold View.result?
    rw [View.put_slots_self, ← h]
    cases previous <;> rfl
  · exact View.result?_congr (View.put_slots_ne _ hy _)

variable {o : Outline} (ho : o.Sound) (hrank : o.catalog.Ranks rank)
  (halone : o.catalog.ComputesAlone)

include ho hrank halone

/-- A claim that is granted: the references are settled, and the computation is
concluded with what they yield. -/
theorem claimed_ends (hs : s.view.outline = o) (hst : s.view.Stocked)
    (hclosed : s.view.Closed D V) (hx : o.Declares x m spec) (hcomputed : spec.isStatic = false)
    (hfree : s.view.Free rank (o.rank rank x + 1)) {force : Bool}
    (hclaim : force = true ∨ s.view.slots x = none)
    (hD : D x)
    (ih : ∀ y, o.Has y → D y → o.rank rank y < o.rank rank x → Computable D V rank o y) :
    Ends (fun call => computeField call x.1 x.2 force) s fun a t =>
      ∃ mid, s.view.FillsTo rank (o.rank rank x) D V mid ∧ ∃ r, o.Yields V x r
        ∧ Concluded mid x (s.view.slots x) r a t.view := by
  obtain ⟨i, hi, rfl⟩ := instance_of_member? (hs ▸ hx.member)
  have hfreex := fun previous => hfree x previous (by rw [hs]; omega)
  obtain ⟨previous, hprevious, hclaimed⟩ := exists_claim hi hfreex
    (hclaim.imp_right fun hnone e he => by simp [hnone] at he)
  have hview := view_setSlot hi x.2 (some (.computing previous))
  have hcomputes : s.view.Computes x := ⟨i.member, spec, hs ▸ hx, hcomputed⟩
  unfold computeField
  refine .next (runOn_declared hi hx.field) ?_
  simp only [hcomputed, Bool.false_eq_true, if_false]
  refine .next (runOn_onCache hi _) ?_
  simp only [hclaimed]
  generalize s.setCache x.1 (i.cache.setSlot x.2 (some (.computing previous))) = s' at hview ⊢
  -- what is computed on the way finds the session as it needs it
  have hbelow : ∀ t : Session, s'.view.FillsTo rank (o.rank rank x) D V t.view →
      t.view.outline = o ∧ t.view.Stocked ∧ t.view.Closed D V
        ∧ t.view.Free rank (o.rank rank x) := by
    intro t ht
    rw [hview] at ht
    refine ⟨ht.outline.trans hs, ht.stocked (hst.put_computing hcomputes previous),
      ht.closed (hclosed.congr rfl (result?_claimed hprevious)), ht.free ?_⟩
    exact (hfree.mono (by omega)).put (Nat.le_of_eq (by rw [hs])) _
  have hs' : s'.view.outline = o := by rw [hview]; exact hs
  have hgather := gather_ends (k := o.rank rank x) hs' ho hx (fun reference href y hy t ht => by
    obtain ⟨hto, htst, htclosed, htfree⟩ := hbelow t ht
    have hlt := ho.rank_target hrank hx href hy
    have hDy := htclosed.target (hto ▸ hx) hD href (hto ▸ hy)
    refine (ih y (ho.has_of_target hx href hy) hDy hlt t hto htst htclosed
      (htfree.mono (by omega))).mono ?_
    rintro a u ⟨hfills, r⟩
    exact ⟨hfills.mono (by omega), r⟩) spec.refs (fun _ h => h) s' (.refl ..)
  refine .bind hgather ?_ ?_
  · rintro g' t ⟨ht, g, hg, hg'⟩
    obtain rfl : g' = gathered g := by simpa using hg'
    obtain ⟨hto, -⟩ := hbelow t ht
    -- the node is still claimed, since only lower ones were settled
    have hslot : t.view.slots x = some (.computing previous) := by
      rw [ht.above x (Nat.le_of_eq (by rw [hs'])), hview]
      exact View.put_slots_self ..
    rw [hview] at ht
    have hmid := fillsTo_of_claimed ht
    have hconclude : ∀ {r a} {u : Session}, o.Yields V x r →
        Concluded t.view x (previous.map .stored) r a u.view →
        ∃ mid, s.view.FillsTo rank (o.rank rank x) D V mid ∧ ∃ r, o.Yields V x r
          ∧ Concluded mid x (s.view.slots x) r a u.view := by
      intro r a u hyields hconcluded
      rw [hprevious] at hconcluded
      exact ⟨_, hmid, r, hyields, concluded_put hconcluded _⟩
    cases g with
    | ok values =>
      refine (runLogic_ends (hto ▸ hx.member) (halone (ho.kind hx.member)) hslot values).mono ?_
      rintro a u ⟨number, h⟩
      exact hconclude ⟨i.member, spec, .ok values, hx, hg, number, rfl⟩ h
    | error e =>
      have h := (conclude_ends (hto ▸ hx.member) hslot (.error e)).mono fun a u h =>
        hconclude ⟨i.member, spec, .error e, hx, hg, rfl⟩ h
      cases e <;> exact h
  · rintro e t ⟨-, g, -, h⟩
    simp at h
/-- **Computing settles a node or says that it is not ready**, by induction on
the rank. -/
theorem computable {x : Node} (hx : o.Has x) (hD : D x) : Computable D V rank o x := by
  induction hk : o.rank rank x using Nat.strongRecOn generalizing x with
  | ind k ih =>
    subst hk
    intro s hs hst hclosed hfree
    obtain ⟨m, spec, hx⟩ := hx
    have hhas : s.view.outline.Has x := ⟨m, spec, hs ▸ hx⟩
    obtain ⟨i, hi, rfl⟩ := instance_of_member? (hs ▸ hx.member)
    -- what is settled before is the answer
    have hready : ∀ {r} {a : Except Error Unit} {t : Session}, s.view.Settled x r →
        a = .ok () ∧ t = s → Computed D V rank (o.rank rank x + 1) s.view x a t.view := by
      rintro r a t hset ⟨ha, rfl⟩
      exact ⟨.refl .., _, hclosed.known hhas hD hset.result?, .inr ⟨hset, .inl ha⟩⟩
    cases hcomputed : spec.isStatic with
    | true =>
      obtain ⟨w, hw⟩ := hst.given (hs ▸ hx) hcomputed
      exact (compute_static_ends hi hx.field hcomputed).mono fun _ _ h => hready hw h
    | false =>
      have hcomputes : s.view.Computes x := ⟨i.member, spec, hs ▸ hx, hcomputed⟩
      cases hslot : s.view.slots x with
      | some sl =>
        cases sl with
        | computing previous => exact absurd hslot (hfree x previous (by rw [hs]; omega))
        | stored e =>
          obtain ⟨r, hr, hne⟩ := hst.entry hslot
          exact (compute_stored_ends hi hx.field hcomputed hslot
            (Entry.isSettled_of_result? hr)).mono fun _ _ h => hready ⟨e, hslot, hr, hne⟩ h
      | none =>
        refine .call ?_
        show Ends (fun call => computeField call x.1 x.2 false) s _
        refine (claimed_ends ho hrank halone hs hst hclosed hx hcomputed hfree (.inr hslot)
          hD fun y hy hDy hlt => ih _ hlt hy hDy rfl).mono ?_
        rintro a t ⟨mid, hmid, r, hyields, hconcluded⟩
        have hV : V x r :=
          hclosed.yields hcomputes hD (by simp [View.result?, hslot]) (hs ▸ hyields)
        rw [hslot] at hconcluded
        rcases hconcluded with ⟨hr, ha, ht⟩ | ⟨hr, ha, now, ht⟩
        · have hmidx : mid.slots x = none := by
            rw [hmid.above x (Nat.le_of_eq (by rw [hs])), hslot]
          rw [ht, View.put_eq_self hmidx]
          exact ⟨hmid.mono (by omega), r, hV, .inl ⟨hr, ha, hmidx⟩⟩
        · rw [ht]
          have hset := View.settled_put mid x hr now
          exact ⟨hmid.settle hcomputes hD hslot hV hset (by omega) (by rw [hs]; omega), r, hV,
            .inr ⟨hset, ha⟩⟩

end Compute

/-! ## §6. Between operations. -/

section Quiet

variable {D : Node → Prop} {V : Node → Outcome → Prop}
  (ho : s.view.outline.Sound) (halone : s.view.outline.catalog.ComputesAlone)
  (hst : s.view.Stocked) (hquiet : s.view.Quiet) (hclosed : s.view.Closed D V)

include ho halone hst hquiet hclosed

/-- **Computing a field** settles what it needs and the field itself, or leaves
it unset because it is not ready. -/
theorem compute_ends (hx : s.view.outline.Has x) (hD : D x) :
    Ends (fun call => call (.compute x.1 x.2)) s fun a t =>
      s.view.Fills D V t.view ∧ Attempted V x a t.view := by
  obtain ⟨rank, hrank⟩ := ho.lawful.ranked
  have hcomputable := computable ho hrank halone (V := V) hx hD s rfl hst hclosed (hquiet.free _ _)
  exact hcomputable.mono fun a t h => ⟨h.1.toFills, h.2⟩

/-- **Computing a field again** settles what it needs, and then replaces its
entry by what the references yield, or leaves it as it was. -/
theorem recompute_ends (hx : s.view.outline.Declares x m spec) (hcomputed : spec.isStatic = false)
    (hD : D x) : Ends (fun call => call (.recompute x.1 x.2)) s fun a t =>
      ∃ mid, s.view.Fills D V mid ∧ ∃ r, s.view.outline.Yields V x r
        ∧ ((r = .error .notReady ∧ a = .error .notReady ∧ t.view = mid)
          ∨ (r ≠ .error .notReady ∧ Answers r a
            ∧ ∃ now, t.view = mid.put x (some (.stored (Entry.ofOutcome r now))))) := by
  obtain ⟨rank, hrank⟩ := ho.lawful.ranked
  refine .call ?_
  show Ends (fun call => computeField call x.1 x.2 true) s _
  refine (claimed_ends ho hrank halone rfl hst hclosed hx hcomputed (hquiet.free _ _) (.inl rfl) hD
    fun y hy hDy _ => computable ho hrank halone hy hDy).mono ?_
  rintro a t ⟨mid, hmid, r, hyields, hconcluded⟩
  have hslot : mid.slots x = s.view.slots x := hmid.above x (Nat.le_refl _)
  refine ⟨mid, hmid.toFills, r, hyields, hconcluded.imp ?_ id⟩
  rintro ⟨hr, ha, ht⟩
  exact ⟨hr, ha, ht.trans (View.put_eq_self hslot)⟩

omit ho halone hst hquiet hclosed in
/-- A static field is never computed. -/
theorem recompute_static_ends (hx : s.view.outline.Declares x m spec)
    (hstatic : spec.isStatic = true) :
    Ends (fun call => call (.recompute x.1 x.2)) s fun a t => a = .ok () ∧ t = s := by
  obtain ⟨i, hi, rfl⟩ := instance_of_member? hx.member
  refine .call ?_
  show Ends (fun call => computeField call x.1 x.2 true) s _
  unfold computeField
  refine .next (runOn_declared hi hx.field) ?_
  simp only [hstatic, if_true]
  exact .pure ⟨rfl, rfl⟩

end Quiet

end Session

end LazyFields
