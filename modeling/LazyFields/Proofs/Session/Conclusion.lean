/-
  LazyFields.Proofs.Session.Conclusion
  ────────────────────────────────
  **HOW COMPUTING A FIELD ENDS.**

  A computation that claimed a field can leave it in six ways, and each of them
  leaves another slot behind: the claim is refused, there is nothing to compute,
  the references block it, one of them has failed, the logic says that it is not
  ready, or an outcome is stored.  Whether references block a field or fail it
  depends on the first one that has no value: one that cannot be looked up
  blocks it, one that was looked up and has failed makes the field fail too.

    · `Exits`, `computeField_exits` — the ways out, given what the references
      come to
    · `View.Gathers`, `gather_gathers` — what the references come to
    · `compute_tells` — the answer tells which slot is left
    · `compute_stores_coinciding` — an error that names an unknown kind does not
      tell it, if logic makes up such an error
-/
import LazyFields.Proofs.Session.Cyclic
import LazyFields.Proofs.Session.Gaps

namespace LazyFields

/-! ## §1. References that have a value. -/

namespace View

variable {v w : View} {x y : Node} {n : Nat} {m : Member} {reference : String} {a : Value}

/-- The value of a node for fields that refer to it.  A computed field has none while
it is claimed, even if readers see one. -/
def value? (v : View) (x : Node) : Option Value :=
  (v.outline.spec? x).bind fun spec =>
    match spec.isStatic, v.slots x with
    | false, some (.computing _) => none
    | _, _ => (v.result? x).bind Except.toOption

/-- The value of a reference of an instance. -/
def valueOf? (v : View) (n : Nat) (m : Member) (reference : String) : Option Value :=
  match v.outline.aim n m reference with
  | .ok ⟨some source, field, _⟩ => v.value? (source, field)
  | _ => none

/-- The first reference without a value. -/
def firstOpen (v : View) (n : Nat) (m : Member) (refs : List String) : Option String :=
  refs.find? fun reference => (v.valueOf? n m reference).isNone

/-- Only outline and slot count. -/
theorem value?_congr (ho : w.outline = v.outline) (hslot : w.slots x = v.slots x) :
    w.value? x = v.value? x := by
  rw [value?, ho, hslot, result?_congr hslot, value?]

/-- A value of a field is a result. -/
theorem result?_of_value? (h : v.value? x = some a) : v.result? x = some (.ok a) := by
  obtain ⟨spec, -, hvalue⟩ := Option.bind_eq_some_iff.1 h
  split at hvalue
  · simp at hvalue
  · obtain ⟨r, hr, ha⟩ := Option.bind_eq_some_iff.1 hvalue
    cases r with
    | error e => simp [Except.toOption] at ha
    | ok b =>
      obtain rfl : b = a := Option.some.inj ha
      exact hr

/-- A field that is held has no value. -/
theorem value?_of_held (h : Session.Held v x) : v.value? x = none := by
  obtain ⟨⟨previous, hslot⟩, spec, hspec, hcomputed⟩ := h
  simp only [View.value?, hspec, Option.bind_some, hcomputed, hslot]

/-- What a node has a result for is not open. -/
theorem not_open_of_result? {r : Outcome} (h : v.result? x = some r) : ¬ v.Open x := by
  obtain ⟨e, he, hr⟩ := Option.bind_eq_some_iff.1 h
  exact not_open_of_seen he (Entry.isSettled_of_result? hr)

/-- A field that is open has no value. -/
theorem Open.value? (h : v.Open x) : v.value? x = none := by
  refine Option.eq_none_iff_forall_ne_some.2 fun a ha => ?_
  exact not_open_of_result? (result?_of_value? ha) h

/-- A field that is never computed, or finished, has the value that readers see. -/
theorem value?_of_idle {spec : FieldSpec} (hspec : v.outline.spec? x = some spec)
    (hidle : spec.isStatic = true ∨ v.Finished x) :
    v.value? x = (v.result? x).bind Except.toOption := by
  rw [View.value?, hspec, Option.bind_some]
  rcases hidle with hstatic | ⟨e, he, -⟩
  · simp only [hstatic]
  · rw [he]
    cases spec.isStatic <;> rfl

/-- A field with an error has no value. -/
theorem value?_of_error {e : Error} (h : v.result? x = some (.error e)) : v.value? x = none := by
  refine Option.eq_none_iff_forall_ne_some.2 fun a ha => ?_
  rw [result?_of_value? ha] at h
  cases h

/-- A field with a value is not the one that is held. -/
theorem ne_of_held (h : Session.Held v x) (hy : v.value? y = some a) : y ≠ x := by
  rintro rfl
  rw [value?_of_held h] at hy
  cases hy

namespace Advances

variable (h : v.Advances w)

include h

/-- A value stays. -/
theorem value? (hx : v.value? x = some a) : w.value? x = some a := by
  have hslot := (h.slots x).resolve_right fun hchanged =>
    not_open_of_result? (result?_of_value? hx) hchanged.1
  rwa [value?_congr h.outline hslot]

/-- The value of a reference stays. -/
theorem valueOf? (hr : v.valueOf? n m reference = some a) :
    w.valueOf? n m reference = some a := by
  unfold View.valueOf? at hr ⊢
  rw [h.outline]
  split at hr
  · exact h.value? hr
  · cases hr

/-- Computations that are under way were so before. -/
theorem held_of_held (hx : Session.Held w x) : Session.Held v x := by
  obtain ⟨⟨previous, hslot⟩, hspec⟩ := hx
  have hunfinished : ¬ w.Finished x := by
    rintro ⟨e, he, -⟩
    rw [hslot] at he
    cases he
  have hsame := (h.slots x).resolve_right fun hchanged => hunfinished hchanged.2
  exact ⟨⟨previous, hsame.symm.trans hslot⟩, by rw [← h.outline]; exact hspec⟩

end Advances

/-- What is done to a claimed node does not touch the values of other ones. -/
theorem valueOf?_put (hx : Session.Held v x) (sl : Option Slot)
    (h : v.valueOf? n m reference = some a) :
    (v.put x sl).valueOf? n m reference = some a := by
  unfold valueOf? at h ⊢
  rw [put_outline]
  split at h
  · next haim =>
    have hne := ne_of_held hx h
    rwa [value?_congr (put_outline v x sl) (put_slots_ne v hne sl)]
  · cases h

/-- A reference with a value is not the first one that is open. -/
theorem firstOpen_cons (h : v.valueOf? n m reference = some a) (refs : List String) :
    v.firstOpen n m (reference :: refs) = v.firstOpen n m refs := by
  rw [firstOpen, List.find?_cons_of_neg (by simp [h]), firstOpen]

/-- A reference without a value is the first one that is open. -/
theorem firstOpen_cons_of_none (h : v.valueOf? n m reference = none) (refs : List String) :
    v.firstOpen n m (reference :: refs) = some reference := by
  rw [firstOpen, List.find?_cons_of_pos (by simp [h])]

end View

/-! ## §2. What the references come to. -/

namespace View

variable {v w : View} {x : Node} {n : Nat} {m : Member} {refs : List String}
  {g : Session.Gathered}

/-- The references of an instance have values, or the first one that has none tells what
comes of them: it is not ready, or cannot be looked up, or has failed. -/
inductive Gathers (v : View) (n : Nat) (m : Member) (refs : List String) :
    Session.Gathered → Prop
  | values {values : List Value}
      (h : List.Forall₂ (fun reference a => v.valueOf? n m reference = some a) refs values) :
      Gathers v n m refs (.values values)
  | waits : Gathers v n m refs (.blocked .notReady)
  | unknown {reference : String} {e : Error} (hopen : v.firstOpen n m refs = some reference)
      (haim : v.outline.aim n m reference = .error e) : Gathers v n m refs (.blocked e)
  | failed {reference address : String} {y : Node} {e : Error}
      (hopen : v.firstOpen n m refs = some reference)
      (haim : v.outline.aim n m reference = .ok ⟨some y.1, y.2, address⟩) (hy : ¬ Session.Held v y)
      (he : e ≠ .notReady) : Gathers v n m refs (.failed e)

/-- One more reference with a value. -/
theorem Gathers.cons {reference : String} {a : Value} (h : v.valueOf? n m reference = some a)
    (hg : v.Gathers n m refs g) : v.Gathers n m (reference :: refs) (match g with
      | .values vs => .values (a :: vs)
      | other => other) := by
  have hcons := firstOpen_cons h refs
  cases hg with
  | values hvalues => exact .values (.cons h hvalues)
  | waits => exact .waits
  | unknown hopen haim => exact .unknown (hcons.trans hopen) haim
  | failed hopen haim hy he => exact .failed (hcons.trans hopen) haim hy he

/-- The error of the first reference without a value, if it cannot be looked up: there is
no kind of the name that it begins with. -/
def Unresolved (v : View) (n : Nat) (m : Member) (refs : List String) (e : Error) : Prop :=
  ∃ reference kind field, v.firstOpen n m refs = some reference
    ∧ splitReference reference = (some kind, field) ∧ v.outline.catalog.has kind = false
    ∧ e = .unknownResource kind

end View

/-- Looking up a reference fails if its kind is unknown, and for no other reason while
the session runs. -/
theorem Outline.aim_eq_error_iff {o : Outline} (hlive : o.live = true) {n : Nat} {m : Member}
    {reference : String} {e : Error} :
    o.aim n m reference = .error e ↔ ∃ kind field, splitReference reference = (some kind, field)
      ∧ o.catalog.has kind = false ∧ e = .unknownResource kind := by
  unfold aim
  rcases hsplit : splitReference reference with ⟨_ | kind, field⟩
  · simp
  · simp only [hlive, if_true, Catalog.get]
    constructor
    · intro h
      cases hk : o.catalog.lookup? kind with
      | some k => simp [hk, Except.map] at h
      | none =>
        simp only [hk, Except.map, Except.error.injEq] at h
        exact ⟨kind, field, rfl, by rw [Catalog.has, hk]; rfl, h.symm⟩
    · rintro ⟨_, _, heq, hunknown, rfl⟩
      cases heq
      rw [Catalog.has, Option.isSome_eq_false_iff, Option.isNone_iff_eq_none] at hunknown
      rw [hunknown]
      rfl

namespace View

variable {v : View} {x : Node} {n : Nat} {m : Member} {refs : List String}

/-- Once the claim of the node is given up or filled, the first reference without a
value is the same. -/
theorem firstOpen_put (hx : Session.Held v x) (sl : Option Slot) {reference : String}
    (hopen : v.firstOpen n m refs = some reference)
    (hne : ∀ {y : Node} {address : String},
      v.outline.aim n m reference = .ok ⟨some y.1, y.2, address⟩ → y ≠ x) :
    (v.put x sl).firstOpen n m refs = some reference := by
  induction refs with
  | nil => cases hopen
  | cons first refs ih =>
    cases hvalue : v.valueOf? n m first with
    | some a =>
      rw [firstOpen_cons hvalue] at hopen
      rw [firstOpen_cons (valueOf?_put hx sl hvalue)]
      exact ih hopen
    | none =>
      rw [firstOpen_cons_of_none hvalue] at hopen
      obtain rfl := Option.some.inj hopen
      refine firstOpen_cons_of_none ?_ refs
      -- the reference is not to the node itself, and the other slots are as they were
      unfold valueOf? at hvalue ⊢
      rw [put_outline]
      split
      · next haim =>
        rw [haim] at hvalue
        rw [value?_congr (put_outline v x sl) (put_slots_ne v (hne haim) sl)]
        exact hvalue
      · rfl

/-- If all references have values, none is open. -/
theorem firstOpen_of_values {values : List Value}
    (h : List.Forall₂ (fun reference a => v.valueOf? n m reference = some a) refs values) :
    v.firstOpen n m refs = none := by
  induction h with
  | nil => rfl
  | cons hvalue _ ih => rw [firstOpen_cons hvalue, ih]

section Unresolved

variable {g : Session.Gathered} {e : Error} (hg : v.Gathers n m refs g) (hx : Session.Held v x)
  (hlive : v.outline.live = true) (sl : Option Slot)

include hg hx hlive

/-- What blocks a field, other than that something is not ready, is a reference of an
unknown kind. -/
theorem Gathers.unresolved (hblocked : g = .blocked e) (he : e ≠ .notReady) :
    (v.put x sl).Unresolved n m refs e := by
  cases hg with
  | values => cases hblocked
  | failed => cases hblocked
  | waits => exact absurd (by cases hblocked; rfl) he
  | unknown hopen haim =>
    cases hblocked
    obtain ⟨kind, field, hsplit, hunknown, rfl⟩ := (Outline.aim_eq_error_iff hlive).1 haim
    refine ⟨_, kind, field, firstOpen_put hx sl hopen fun haim' => ?_, hsplit, hunknown, rfl⟩
    rw [haim] at haim'
    cases haim'

/-- Otherwise no such reference comes first. -/
theorem Gathers.not_unresolved (hnot : ∀ e, g ≠ .blocked e) :
    ¬ (v.put x sl).Unresolved n m refs e := by
  rintro ⟨reference, kind, field, hfirst, hsplit, hunknown, rfl⟩
  cases hg with
  | values hvalues =>
    have hall := firstOpen_of_values (hvalues.imp fun _ _ h => valueOf?_put hx sl h)
    rw [hall] at hfirst
    cases hfirst
  | waits => exact hnot _ rfl
  | unknown => exact hnot _ rfl
  | @failed _ _ y _ hopen haim hy he =>
    obtain ⟨number, field'⟩ := y
    have hsame := firstOpen_put hx sl hopen <| by
      rintro y address haim' rfl
      rw [haim] at haim'
      cases haim'
      exact hy hx
    obtain rfl := Option.some.inj (hfirst.symm.trans hsame)
    have hfails : v.outline.aim n m reference = .error (.unknownResource kind) :=
      (Outline.aim_eq_error_iff hlive).2 ⟨kind, field, hsplit, hunknown, rfl⟩
    rw [haim] at hfails
    cases hfails

end Unresolved

end View

/-! ## §3. The ways out. -/

namespace Session

open LazyFields.Action

variable {s t u : Session} {x : Node} {n : Nat} {i : Instance} {m : Member} {spec : FieldSpec}
  {P : Gathered → Session → Prop} {a : Except Error Unit} {force : Bool}

/-- How a computation of a computed field can end, with its answer and the session that
it leaves.  `P` is what is known of the session when the references are gathered. -/
inductive Exits (s : Session) (x : Node) (m : Member) (spec : FieldSpec) (force : Bool)
    (P : Gathered → Session → Prop) : Except Error Unit → Session → Prop
  /-- Another computation holds the field. -/
  | busy (h : s.view.Busy x) : Exits s x m spec force P (.error .notReady) s
  /-- There is nothing to compute. -/
  | ready (hforce : force = false) (h : s.view.Finished x) : Exits s x m spec force P (.ok ()) s
  /-- A reference keeps the field from being computed. -/
  | blocked {e : Error} {t u : Session} (hopen : force = false → s.view.Open x)
      (hgathered : P (.blocked e) t) (hu : u.view = t.view.put x (s.view.slots x)) :
      Exits s x m spec force P (.error e) u
  /-- A reference has failed. -/
  | failed {e : Error} {t u : Session} (hgathered : P (.failed e) t) (now : Int)
      (hu : u.view = t.view.put x (some (.stored (.ofError e now)))) :
      Exits s x m spec force P (.error e) u
  /-- The logic says that the field is not ready. -/
  | unready {values : List Value} {t u : Session} (hopen : force = false → s.view.Open x)
      (hgathered : P (.values values) t) (hu : u.view = t.view.put x (s.view.slots x)) :
      Exits s x m spec force P (.error .notReady) u
  /-- Any other outcome of the logic is stored. -/
  | stored {values : List Value} {t u : Session} {r : Outcome}
      (hgathered : P (.values values) t) (hr : r ≠ .error .notReady)
      (houtcome : r = m.outcome x spec values (u.computeCalls m.kind.name x.2)) (now : Int)
      (hu : u.view = t.view.put x (some (.stored (.ofOutcome r now))))
      (hjournal : u.journal = (t.called m x.2 values).journal) :
      Exits s x m spec force P (r.map fun _ => ()) u

/-- A forced claim never finds that there is nothing to compute. -/
theorem claim_forced (c c' : Cache) (field : String) (e : Entry) :
    c.claim field true ≠ (.ready e, c') := by
  unfold Cache.claim
  split <;> simp

/-- Logic is called on the values of the references. -/
theorem runLogic_exits (halone : ∀ {logic}, m.kind.compute? x.2 = some logic →
      ∀ self values number, (logic self values number).IsPassive)
    (hopen : force = false → s.view.Open x) {values : List Value} (hgathered : P (.values values) t)
    {previous : Option Entry} (hprevious : previous.map Slot.stored = s.view.slots x)
    (hmt : t.view.outline.member? x.1 = some m)
    (hslot : t.view.slots x = some (.computing previous)) :
    Ends (fun call => runLogic call x.1 spec x.2 values) t (s.Exits x m spec force P) := by
  obtain ⟨i, hi, rfl⟩ := instance_of_member? hmt
  have hcalled := (instance?_called t i.member x.2 values x.1).trans hi
  have hrun : ∀ call, (runLogic call x.1 spec x.2 values).runOn t = _ :=
    runOn_runLogic hi halone values
  by_cases hr : i.member.outcome x spec values
      ((t.called i.member x.2 values).computeCalls i.kind.name x.2) = .error .notReady
  · rw [hr, runOn_conclude_notReady hcalled] at hrun
    refine .of_runOn hrun (.unready hopen hgathered ?_)
    rw [view_release hcalled ((view_called ..).symm ▸ hslot), view_called, hprevious]
  · rw [runOn_conclude hcalled hr] at hrun
    refine .of_runOn hrun (.stored hgathered hr rfl t.now ?_ rfl)
    rw [now_called]
    exact (view_setSlot hcalled x.2 _).trans (by rw [view_called])

/-- **The ways out of a computation**, given what gathering the references comes to. -/
theorem computeField_exits (hi : s.instance? x.1 = some i)
    (hfield : i.kind.info.field? x.2 = some spec) (hcomputed : spec.isStatic = false)
    (halone : ∀ {logic}, i.kind.compute? x.2 = some logic →
      ∀ self values number, (logic self values number).IsPassive)
    (hfailed : ∀ {e t}, P (.failed e) t → e ≠ .notReady)
    (hgather : ∀ previous : Option Entry, previous.map Slot.stored = s.view.slots x →
      Ends (fun call => gather call x.1 spec.refs)
        (s.setCache x.1 (i.cache.setSlot x.2 (some (.computing previous)))) fun a t =>
          (s.view.put x (some (.computing previous))).Advances t.view ∧ ∃ g, a = .ok g ∧ P g t) :
    Ends (fun call => computeField call x.1 x.2 force) s (s.Exits x i.member spec force P) := by
  have hm : s.view.outline.member? x.1 = some i.member := member?_of_instance hi
  unfold computeField
  refine .next (runOn_declared hi hfield) ?_
  simp only [hcomputed, Bool.false_eq_true, if_false]
  refine .next (runOn_onCache hi _) ?_
  rcases claims hi force with ⟨hbusy, hclaim⟩ | ⟨hfinished, hclaim⟩ | ⟨hprevious, hopen, hclaim⟩
  · rw [hclaim, setCache_self hi]
    exact .throw (.busy hbusy)
  · rw [hclaim, setCache_self hi]
    refine .pure (.ready (Bool.eq_false_iff.2 ?_) hfinished)
    rintro rfl
    exact claim_forced _ _ _ _ hclaim
  · rw [hclaim]
    refine .bind (hgather _ hprevious) ?_ ?_
    · rintro g t ⟨hadvances, g', hg, hgathered⟩
      obtain rfl : g = g' := Except.ok.inj hg
      -- the claim is still held, whatever was settled meanwhile
      have hslot := (hadvances.slots_of_busy ⟨_, View.put_slots_self ..⟩).trans
        (View.put_slots_self ..)
      have hmt : t.view.outline.member? x.1 = some i.member := hadvances.outline ▸ hm
      obtain ⟨j, hj, -⟩ := instance_of_member? hmt
      cases g with
      | values vs => exact runLogic_exits halone hopen hgathered hprevious hmt hslot
      | blocked e =>
        refine .of_runOn (fun _ => runOn_abandon hj e) (.blocked hopen hgathered ?_)
        rw [view_release hj hslot, hprevious]
      | failed e =>
        refine .of_runOn (fun _ => runOn_conclude hj (by simpa using hfailed hgathered)) ?_
        exact .failed hgathered t.now (view_setSlot hj x.2 _)
    · rintro e t ⟨-, g, hg, -⟩
      cases hg

/-! ## §4. Computing and reading a reference. -/

/-- A computation that fails leaves no value. -/
theorem Exits.value? {e : Error} (h : s.Exits x m spec false P a u) (ha : a = .error e)
    (hspec : s.view.outline.spec? x = some spec) (hcomputed : spec.isStatic = false)
    (ho : ∀ {g t}, P g t → t.view.outline = s.view.outline) : u.view.value? x = none := by
  -- a claim that is given up leaves the field open, as it was
  have hgivenUp : ∀ {g t}, s.view.Open x → P g t → u.view = t.view.put x (s.view.slots x) →
      u.view.value? x = none := by
    intro g t hopen hgathered hu
    have hslot : u.view.slots x = s.view.slots x := by rw [hu, View.put_slots_self]
    have houtline : u.view.outline = s.view.outline := by rw [hu]; exact ho hgathered
    rw [View.value?_congr houtline hslot]
    exact hopen.value?
  cases h with
  | busy hbusy => exact View.value?_of_held ⟨hbusy, spec, hspec, hcomputed⟩
  | ready => cases ha
  | blocked hopen hgathered hu => exact hgivenUp (hopen rfl) hgathered hu
  | unready hopen hgathered hu => exact hgivenUp (hopen rfl) hgathered hu
  | failed hgathered now hu =>
    rw [hu]
    exact View.value?_of_error (View.result?_of_stored (View.put_slots_self ..))
  | @stored values t u r hgathered hr houtcome now hu hjournal =>
    cases r with
    | ok w => cases ha
    | error e' =>
      rw [hu]
      exact View.value?_of_error ((View.result?_of_stored (View.put_slots_self ..)).trans
        (Entry.result?_ofOutcome _ now))

/-- A reference that waits does not fail a field. -/
theorem gather_failed (call : Performer) (n : Nat) (refs : List String) (s : Session) :
    (gather call n refs).Returns s fun a _ => ∀ e, a = .ok (.failed e) → e ≠ .notReady := by
  induction refs generalizing s with
  | nil =>
    refine .of_runOn (runOn_pure _ s) fun e he => ?_
    simp at he
  | cons reference refs ih =>
    unfold gather
    refine .bind (P := fun _ _ => True) (fun _ _ _ => trivial) (fun target t _ => ?_)
      fun e t _ e' he => by cases he
    split
    · exact .of_runOn (runOn_pure _ t) fun e he => by simp at he
    · exact .of_runOn (runOn_pure _ t) fun e he => by simp at he
    · refine .bind (P := fun _ _ => True) (fun _ _ _ => trivial) (fun r t _ => ?_)
        fun e t _ e' he => by cases he
      split
      · exact .of_runOn (runOn_pure _ t) fun e he => by simp at he
      · next e hne =>
        -- an error fails the field only if it is not the signal
        refine .of_runOn (runOn_pure _ t) fun e' he => ?_
        simp only [Except.ok.injEq, Gathered.failed.injEq] at he
        rintro rfl
        exact hne he
      · refine .bind (ih t) (fun g u hg => ?_) fun e u _ e' he => by cases he
        split
        · exact .of_runOn (runOn_pure _ u) fun e he => by simp at he
        · exact .of_runOn (runOn_pure _ u) hg

/-- What computing a node comes to: it can be read then, or it has no value. -/
theorem compute_value (ho : s.view.outline.Standing) (hm : s.view.outline.member? x.1 = some m) :
    Ends (fun call => call (.compute x.1 x.2)) s fun a t => s.view.Advances t.view
      ∧ (a = .ok () → t.view.Idle x) ∧ ∀ e, a = .error e → t.view.value? x = none := by
  obtain ⟨i, hi, rfl⟩ := instance_of_member? hm
  have hspec? : s.view.outline.spec? x = i.kind.info.field? x.2 := Outline.spec?_of_member hm
  -- that it advances, and ends idle, is known of every computation, so the errors are left
  suffices hvalue : Ends (fun call => call (.compute x.1 x.2)) s fun a t =>
      ∀ e, a = .error e → t.view.value? x = none by
    refine (hvalue.and_returns fun fuel a t hrun => advances_of_compute ho hrun).mono ?_
    rintro a t ⟨hvalue, hadvances, hidle⟩
    exact ⟨hadvances, hidle, hvalue⟩
  cases hfield : i.kind.info.field? x.2 with
  | none =>
    refine (compute_undeclared_ends hi hfield).mono ?_
    rintro a t ⟨rfl, rfl⟩ e -
    rw [View.value?, hspec?, hfield]
    rfl
  | some spec =>
    cases hcomputed : spec.isStatic with
    | true =>
      refine (compute_static_ends hi hfield hcomputed).mono ?_
      rintro a t ⟨rfl, rfl⟩ e he
      cases he
    | false =>
      refine .call ?_
      show Ends (fun call => computeField call x.1 x.2 false) s _
      refine (computeField_exits (P := fun g t => t.view.outline = s.view.outline
        ∧ ∀ e, g = .failed e → e ≠ .notReady) hi hfield hcomputed (ho.alone hm)
        (fun h => h.2 _ rfl) ?_).mono ?_
      · intro previous _
        have hgather := gather_advances (v := s.view.put x (some (.computing previous))) ho rfl hm
          (fun _ _ hy _ => Outline.mem_nodes hy) (compute_advances ho s.view.outline.nodes)
          spec.refs (s.setCache x.1 (i.cache.setSlot x.2 (some (.computing previous))))
          (by rw [view_setSlot hi]; exact .refl _)
        refine (hgather.and_returns fun fuel =>
          gather_failed (perform fuel) x.1 spec.refs _).mono ?_
        rintro a t ⟨⟨hadvances, g, rfl⟩, hfailed⟩
        exact ⟨hadvances, g, rfl, hadvances.outline, fun e he => hfailed e (he ▸ rfl)⟩
      · intro a u hexit e he
        exact hexit.value? he (hspec?.trans hfield) hcomputed And.left

/-- A field that computing does not change is read as the value that it has. -/
theorem field_value (hm : s.view.outline.member? x.1 = some m) (hidle : s.view.Idle x) :
    Ends (fun call => call (.field x.1 x.2)) s fun a t =>
      t = s ∧ s.view.value? x = a.toOption := by
  obtain ⟨i, hi, rfl⟩ := instance_of_member? hm
  have hspec? : s.view.outline.spec? x = i.kind.info.field? x.2 := Outline.spec?_of_member hm
  cases hfield : i.kind.info.field? x.2 with
  | none =>
    refine .call (.of_runOn (fun _ => runOn_readField_of_undeclared hi hfield) ⟨rfl, ?_⟩)
    rw [View.value?, hspec?, hfield]
    rfl
  | some spec =>
    have hspec := hspec?.trans hfield
    have hvalue := View.value?_of_idle hspec (hidle spec hspec)
    rw [result?_of_instance hi] at hvalue
    cases hr : i.cache.result? x.2 with
    | some r =>
      rw [hr] at hvalue
      exact .call (.of_runOn (fun _ => runOn_readField_of_result hi hfield hr) ⟨rfl, hvalue⟩)
    | none =>
      rw [hr] at hvalue
      -- a computed field that is idle has a result, so this one is static
      have hstatic : spec.isStatic = true := by
        refine (hidle spec hspec).resolve_right fun hfinished => ?_
        obtain ⟨r, hr'⟩ := hfinished.result?
        rw [result?_of_instance hi, hr] at hr'
        cases hr'
      exact .call (.of_runOn (fun _ => runOn_readField_of_missing hi hfield hstatic hr)
        ⟨rfl, hvalue⟩)

/-- What a reference is read as is its value afterwards. -/
theorem read_value (ho : s.view.outline.Standing) (hm : s.view.outline.member? x.1 = some m) :
    Ends (fun call => do call (.compute x.1 x.2); call (.field x.1 x.2)) s fun r t =>
      s.view.Advances t.view ∧ t.view.value? x = r.toOption := by
  refine .bind (compute_value ho hm) ?_ fun e t ht => ⟨ht.1, ht.2.2 e rfl⟩
  rintro ⟨⟩ t ⟨hadvances, hidle, -⟩
  refine (field_value (hadvances.outline ▸ hm) (hidle rfl)).mono ?_
  rintro r u ⟨rfl, hvalue⟩
  exact ⟨hadvances, hvalue⟩

/-- A field that is being computed is not read. -/
theorem read_held (hheld : Held s.view x) :
    Ends (fun call => do call (.compute x.1 x.2); call (.field x.1 x.2)) s fun r t =>
      r = .error .notReady ∧ t = s := by
  refine .bind (compute_held_ends hheld) ?_ ?_
  · rintro v t ⟨ha, -⟩
    cases ha
  · rintro e t ⟨ha, ht⟩
    exact ⟨by cases ha; rfl, ht⟩

/-- **What the references come to,** settled from left to right. -/
theorem gather_gathers (refs : List String) : ∀ s : Session, s.view.outline.Standing →
    s.view.outline.member? n = some m →
    Ends (fun call => gather call n refs) s fun a t =>
      s.view.Advances t.view ∧ ∃ g, a = .ok g ∧ t.view.Gathers n m refs g := by
  induction refs with
  | nil => exact fun s _ _ => .pure ⟨.refl _, _, rfl, .values .nil⟩
  | cons reference refs ih =>
    intro s ho hm
    obtain ⟨i, hi, rfl⟩ := instance_of_member? hm
    have haim := runOn_aim hi reference
    unfold gather
    refine .next ((runOn_attempt _ s).trans (by rw [haim]; rfl)) ?_
    cases htarget : s.view.outline.aim n i.member reference with
    | error e =>
      have hnone : s.view.valueOf? n i.member reference = none := by
        rw [View.valueOf?, htarget]
      exact .pure ⟨.refl _, _, rfl, .unknown (View.firstOpen_cons_of_none hnone refs) htarget⟩
    | ok target =>
      obtain ⟨_ | source, field, address⟩ := target
      · exact .pure ⟨.refl _, _, rfl, .waits⟩
      · have hvalueOf : ∀ {t : Session}, s.view.Advances t.view →
            t.view.valueOf? n i.member reference = t.view.value? (source, field) := by
          intro t ht
          rw [View.valueOf?, ht.outline, htarget]
        -- a field that is claimed makes the reference wait, any other one is computed and read
        by_cases hheld : Held s.view (source, field)
        · refine .attempt_bind (read_held hheld) ?_
          rintro _ t ⟨rfl, rfl⟩
          exact .pure ⟨.refl _, _, rfl, .waits⟩
        · obtain ⟨m', hm'⟩ := ho.member_of_aim hm htarget
          refine .attempt_bind (read_value (x := (source, field)) ho hm') ?_
          rintro r t ⟨hadvances, hread⟩
          have hvalue := (hvalueOf hadvances).trans hread
          cases r with
          | ok value =>
            refine .bind (ih t (hadvances.outline ▸ ho) (hadvances.outline ▸ hm)) ?_ ?_
            · rintro g u ⟨hu, g', hg, hgathers⟩
              obtain rfl : g = g' := Except.ok.inj hg
              have hcons := hgathers.cons (hu.valueOf? hvalue)
              cases g <;> exact .pure ⟨hadvances.trans hu, _, rfl, hcons⟩
            · rintro e u ⟨-, g, hg, -⟩
              cases hg
          | error e =>
            -- the signal makes the reference wait, any other error fails the whole
            have hopen := View.firstOpen_cons_of_none hvalue refs
            have hnot : ¬ Held t.view (source, field) :=
              fun h => hheld (hadvances.held_of_held h)
            by_cases he : e = .notReady
            · subst he
              exact .pure ⟨hadvances, _, rfl, .waits⟩
            · have hfailed : t.view.Gathers n i.member (reference :: refs) (.failed e) :=
                .failed hopen (hadvances.outline ▸ htarget) hnot he
              cases e with
              | notReady => exact absurd rfl he
              | _ => exact .pure ⟨hadvances, _, rfl, hfailed⟩

/-! ## §5. What the answer tells. -/

/-- What the answer of a computation of a computed field tells about its slot.  Without an
error there is an entry.  If the field is not ready, or its first reference without a
value is of an unknown kind, the slot is the same.  Any other error is stored. -/
structure Tells (s : Session) (x : Node) (m : Member) (spec : FieldSpec)
    (a : Except Error Unit) (t : Session) : Prop where
  done : a = .ok () → t.view.Finished x
  waits : a = .error .notReady → t.slot? x = s.slot? x
  unresolved : ∀ e, a = .error e → t.view.Unresolved x.1 m spec.refs e → t.slot? x = s.slot? x
  failed : ∀ e, a = .error e → e ≠ .notReady → ¬ t.view.Unresolved x.1 m spec.refs e →
    ∃ now, t.slot? x = some (.stored (.ofError e now))

/-- The field was computed just now: the last call of the journal is the one of its logic,
on the values of its references, and what it gave is stored. -/
def Renews (s : Session) (x : Node) (m : Member) (spec : FieldSpec) (t : Session) : Prop :=
  ∃ logic values value now events, m.kind.compute? x.2 = some logic
    ∧ List.Forall₂ (fun reference a => t.view.valueOf? x.1 m reference = some a) spec.refs values
    ∧ t.journal = .computed m.kind.name m.id x.2 values :: events ++ s.journal
    ∧ logic ⟨x.1, m.kind.name, m.id⟩ values (t.computeCalls m.kind.name x.2) = .done (.ok value)
    ∧ value.matchesType spec.type = true
    ∧ t.slot? x = some (.stored (.ofValue value now))

namespace Tells

/-- A finished field is told as a success. -/
theorem of_done (h : t.view.Finished x) : s.Tells x m spec (.ok ()) t where
  done _ := h
  waits ha := by cases ha
  unresolved _ ha := by cases ha
  failed _ ha := by cases ha

/-- If the slot is as before, the error says that something is not ready or
unresolved. -/
theorem of_same {e : Error} (hslot : t.slot? x = s.slot? x)
    (h : e = .notReady ∨ t.view.Unresolved x.1 m spec.refs e) :
    s.Tells x m spec (.error e) t where
  done ha := by cases ha
  waits _ := hslot
  unresolved _ _ _ := hslot
  failed e' ha hne hnot := by
    cases ha
    exact absurd h (not_or.2 ⟨hne, hnot⟩)

/-- If the error was stored, it is one of the field's own. -/
theorem of_error {e : Error} {now : Int} (hslot : t.slot? x = some (.stored (.ofError e now)))
    (he : e ≠ .notReady) (hnot : ¬ t.view.Unresolved x.1 m spec.refs e) :
    s.Tells x m spec (.error e) t where
  done ha := by cases ha
  waits ha := by
    cases ha
    exact absurd rfl he
  unresolved e' ha h := by
    cases ha
    exact absurd h hnot
  failed e' ha _ _ := by
    cases ha
    exact ⟨now, hslot⟩

end Tells

/-- What is known of a session in which the references of a claimed node are gathered. -/
structure Gathered.Holds (s : Session) (x : Node) (m : Member) (spec : FieldSpec) (g : Gathered)
    (t : Session) : Prop where
  held : Held t.view x
  live : t.view.outline.live = true
  gathers : t.view.Gathers x.1 m spec.refs g
  journal : ∃ events, t.journal = events ++ s.journal

/-- Every way out leaves the slot that its answer tells. -/
theorem Exits.tells (h : s.Exits x m spec force (Gathered.Holds s x m spec) a t) :
    s.Tells x m spec a t := by
  have hslot : ∀ {v : View} {sl : Option Slot} {u : Session}, u.view = v.put x sl →
      u.slot? x = sl := by
    intro v sl u hu
    show u.view.slots x = sl
    rw [hu, View.put_slots_self]
  cases h with
  | busy hbusy => exact .of_same rfl (.inl rfl)
  | ready hforce hfinished => exact .of_done hfinished
  | unready hopen hgathered hu => exact .of_same (hslot hu) (.inl rfl)
  | @blocked e mid u hopen hgathered hu =>
    refine .of_same (hslot hu) (or_iff_not_imp_left.2 fun hne => ?_)
    rw [hu]
    exact hgathered.gathers.unresolved hgathered.held hgathered.live _ rfl hne
  | @failed e mid u hgathered now hu =>
    refine .of_error (hslot hu) ?_ ?_
    · cases hgathered.gathers with
      | failed hopen haim hy he => exact he
    · rw [hu]
      exact hgathered.gathers.not_unresolved hgathered.held hgathered.live _ (by simp)
  | @stored values mid u r hgathered hr houtcome now hu hjournal =>
    cases r with
    | ok value =>
      exact .of_done ⟨_, hslot hu, Entry.isSettled_of_result? (Entry.result?_ofOutcome _ now)⟩
    | error e =>
      refine .of_error (hslot hu) (by simpa using hr) ?_
      rw [hu]
      exact hgathered.gathers.not_unresolved hgathered.held hgathered.live _ (by simp)

/-- A value comes from the logic of the field, and is of its type. -/
theorem outcome_eq_ok (halone : ∀ {logic}, m.kind.compute? x.2 = some logic →
      ∀ self values number, (logic self values number).IsPassive) {values : List Value}
    {number : Nat} {value : Value} (h : m.outcome x spec values number = .ok value) :
    ∃ logic, m.kind.compute? x.2 = some logic
      ∧ logic ⟨x.1, m.kind.name, m.id⟩ values number = .done (.ok value)
      ∧ value.matchesType spec.type = true := by
  unfold Member.outcome at h
  split at h
  · cases h
  · next logic hlogic =>
    obtain ⟨r, hr⟩ := halone hlogic ⟨x.1, m.kind.name, m.id⟩ values number
    rw [hr] at h
    cases r with
    | error e => cases h
    | ok w =>
      have hcheck : checkResult m.kind.name x.2 spec.type w = .ok value := h
      unfold checkResult at hcheck
      split at hcheck
      · next htype =>
        cases hcheck
        exact ⟨logic, hlogic, hr, htype⟩
      · cases hcheck

/-- A forced computation without an error renews the entry. -/
theorem Exits.renews (h : s.Exits x m spec true (Gathered.Holds s x m spec) a t)
    (halone : ∀ {logic}, m.kind.compute? x.2 = some logic →
      ∀ self values number, (logic self values number).IsPassive)
    (ha : a = .ok ()) : s.Renews x m spec t := by
  -- only an outcome that is stored ends without an error
  cases h with
  | busy => cases ha
  | ready hforce => cases hforce
  | blocked => cases ha
  | failed => cases ha
  | unready => cases ha
  | @stored values mid u r hgathered hr houtcome now hu hjournal =>
    cases r with
    | error e => cases ha
    | ok value =>
      obtain ⟨logic, hlogic, hresult, htype⟩ := outcome_eq_ok halone houtcome.symm
      obtain ⟨events, hevents⟩ := hgathered.journal
      cases hgathered.gathers with
      | values hvalues =>
        refine ⟨logic, values, value, now, events, hlogic, ?_, ?_, hresult, htype, ?_⟩
        · rw [hu]
          exact hvalues.imp fun _ _ h => View.valueOf?_put hgathered.held _ h
        · rw [hjournal, called, hlogic, Option.isSome_some, if_pos rfl]
          exact congrArg _ hevents
        · show t.view.slots x = _
          rw [hu, View.put_slots_self]
          rfl

/-- **A computation of a computed field takes one of the ways out,** with its references
gathered. -/
theorem computeField_exits_gathered (ho : s.view.outline.Standing) (hlive : s.live = true)
    (hi : s.instance? x.1 = some i) (hfield : i.kind.info.field? x.2 = some spec)
    (hcomputed : spec.isStatic = false) (force : Bool) :
    Ends (fun call => computeField call x.1 x.2 force) s
      (s.Exits x i.member spec force (Gathered.Holds s x i.member spec)) := by
  have hm : s.view.outline.member? x.1 = some i.member := member?_of_instance hi
  refine computeField_exits hi hfield hcomputed (ho.alone hm) ?_ ?_
  · intro e t h
    cases h.gathers with
    | failed hopen haim hy he => exact he
  · intro previous hprevious
    have hview := view_setSlot hi x.2 (some (.computing previous))
    generalize hs' : s.setCache x.1 (i.cache.setSlot x.2 (some (.computing previous))) = s'
      at hview ⊢
    have houtline : s'.view.outline = s.view.outline := by rw [hview]; rfl
    have hheld : Held s'.view x := by
      refine ⟨⟨previous, by rw [hview, View.put_slots_self]⟩, spec, ?_, hcomputed⟩
      rw [houtline]
      exact (Outline.spec?_of_member hm).trans hfield
    -- whoever performs the operations on the way, the journal only grows
    have hwrites := fun fuel => filling_gather (D := fun _ => True) (s := s')
      (fills_perform (houtline ▸ ho) (fun _ _ => trivial) fuel) (houtline ▸ hm) spec.refs
      fun _ _ _ _ _ => trivial
    refine ((gather_gathers spec.refs s' (houtline ▸ ho) (houtline ▸ hm)).and_returns
      fun fuel a t hrun => (hwrites fuel s' (.refl _ s') a t hrun).2).mono ?_
    rintro a t ⟨⟨hadvances, g, rfl, hgathers⟩, hwritten⟩
    refine ⟨hview ▸ hadvances, g, rfl, held_of_advances hadvances hheld, ?_, hgathers, ?_⟩
    · rw [hadvances.outline, houtline]
      exact hlive
    · obtain ⟨events, hevents, -⟩ := hwritten.journal
      exact ⟨events, hevents.trans (by rw [← hs']; rfl)⟩

/-- **The answer of a computation tells which slot is left.**  On every running session of
a catalog whose logic asks nothing, computing a computed field of an instance ends as
`Tells` says, forced or not; and if a forced computation ends without an error, the
entry is the value that was computed just now. -/
theorem compute_tells {c : Catalog} (halone : c.ComputesAlone) (hs : s.StemsFrom c)
    (hlive : s.live = true) (hi : s.instance? n = some i) {field : String}
    (hfield : i.kind.info.field? field = some spec) (hcomputed : spec.isStatic = false) :
    (∃ fuel a t, s.run fuel (.compute n field) = some (a, t)
        ∧ s.Tells (n, field) i.member spec a t)
      ∧ ∃ fuel a t, s.run fuel (.recompute n field) = some (a, t)
        ∧ s.Tells (n, field) i.member spec a t
        ∧ (a = .ok () → s.Renews (n, field) i.member spec t) := by
  have ho := hs.standing halone
  have hexits := computeField_exits_gathered (x := (n, field)) ho hlive hi hfield hcomputed
  constructor
  · have hends : Ends (fun call => call (.compute n field)) s (s.Tells (n, field) i.member spec) :=
      .call ((hexits false).mono fun a t h => h.tells)
    exact hends.run
  · have hends : Ends (fun call => call (.recompute n field)) s fun a t =>
        s.Tells (n, field) i.member spec a t
          ∧ (a = .ok () → s.Renews (n, field) i.member spec t) :=
      .call ((hexits true).mono fun a t h =>
        ⟨h.tells, h.renews (ho.alone (member?_of_instance hi))⟩)
    exact hends.run

section Example

open LazyFields.Sample (after)

/-- A kind whose field `f` refers to `g`, and to a field of a kind that nobody loaded. -/
def astray (logic : ComputeLogic) : Kind where
  info := ⟨"r", "r", "", "", none, false, false, "", Table.ofList
    [("g", labelField "g" false []), ("f", labelField "f" false ["g", "core.user.name"])], none⟩
  computes := Table.ofList [("g", logic)]
  init := none
  idLogic := none

/-- A catalog with that kind alone. -/
def strayCatalog (logic : ComputeLogic) : Catalog := ⟨Table.ofList [("r", astray logic)], ∅⟩

/-- A session with an instance of the kind. -/
def strayed (logic : ComputeLogic) : Session :=
  after (.new (strayCatalog logic) ⟨1, 1, false, fun _ => none⟩ 0) (.create "r" ∅)

/-- Every field of the stray catalog computes alone, if the logic does. -/
theorem computesAlone_strayCatalog {logic : ComputeLogic}
    (h : ∀ self values number, (logic self values number).IsPassive) :
    (strayCatalog logic).ComputesAlone := by
  intro key k field logic' hk hlogic
  have hmem : (key, k) ∈ [("r", astray logic)] := Table.get?_eq_some_iff_mem.1 hk
  obtain ⟨rfl, rfl⟩ := Prod.mk.inj (List.mem_singleton.1 hmem)
  have hmem' : (field, logic') ∈ [("g", logic)] := Table.get?_eq_some_iff_mem.1 hlogic
  obtain ⟨rfl, rfl⟩ := Prod.mk.inj (List.mem_singleton.1 hmem')
  exact h

/-- The stray session stems from its catalog. -/
theorem stemsFrom_strayed (logic : ComputeLogic) :
    (strayed logic).StemsFrom (strayCatalog logic) := by
  obtain ⟨_, hrun⟩ := Sample.run_after (.new (strayCatalog logic) ⟨1, 1, false, fun _ => none⟩ 0) (.create "r" ∅)
    (by rfl)
  exact .run (.new ⟨1, 1, false, fun _ => none⟩ 0) hrun

/-- With a value of `g`, the other reference blocks `f`. -/
theorem compute_tells_strayed :
    (strayCatalog saying).ComputesAlone ∧ (strayed saying).StemsFrom (strayCatalog saying)
      ∧ (strayed saying).live = true
      ∧ ∃ i spec, (strayed saying).instance? 0 = some i ∧ i.kind.info.field? "f" = some spec
        ∧ spec.isStatic = false
        ∧ (∃ fuel a t, (strayed saying).run fuel (.compute 0 "f") = some (a, t)
          ∧ (strayed saying).Tells (0, "f") i.member spec a t)
        ∧ ∃ fuel a t, (strayed saying).run fuel (.recompute 0 "f") = some (a, t)
          ∧ (strayed saying).Tells (0, "f") i.member spec a t
          ∧ (a = .ok () → (strayed saying).Renews (0, "f") i.member spec t) := by
  have halone : (strayCatalog saying).ComputesAlone :=
    computesAlone_strayCatalog fun _ _ _ => ⟨_, rfl⟩
  have hi : (strayed saying).instance? 0 = some ((strayed saying).instance? 0).get! := by rfl
  have hfield : ((strayed saying).instance? 0).get!.kind.info.field? "f"
      = some (labelField "f" false ["g", "core.user.name"]) := by rfl
  exact ⟨halone, stemsFrom_strayed saying, by rfl, _, _, hi, hfield, rfl,
    compute_tells halone (stemsFrom_strayed saying) (by rfl) hi hfield rfl⟩

/-- Logic that says that it does not know a kind. -/
def refusing : ComputeLogic := fun _ _ _ => .done (.error (.unknownResource "core.user"))

/-- **An error that logic makes up can coincide with the one of a reference.**  The answer
names the kind of a reference of `f` that nobody loaded, but it is the error of `g`, to
the left of it, and it is stored. -/
theorem compute_stores_coinciding :
    (strayCatalog refusing).ComputesAlone ∧ (strayed refusing).StemsFrom (strayCatalog refusing)
      ∧ (strayed refusing).live = true
      ∧ ∃ i spec t, (strayed refusing).instance? 0 = some i ∧ i.kind.info.field? "f" = some spec
        ∧ spec.isStatic = false ∧ "core.user.name" ∈ spec.refs
        ∧ splitReference "core.user.name" = (some "core.user", "name")
        ∧ (strayed refusing).catalog.has "core.user" = false
        ∧ (strayed refusing).run 20 (.compute 0 "f")
          = some (.error (.unknownResource "core.user"), t)
        ∧ (strayed refusing).slot? (0, "f") = none
        ∧ t.slot? (0, "f") = some (.stored (.ofError (.unknownResource "core.user") 0)) := by
  refine ⟨computesAlone_strayCatalog fun _ _ _ => ⟨_, rfl⟩, stemsFrom_strayed refusing, by rfl,
    ((strayed refusing).instance? 0).get!, labelField "f" false ["g", "core.user.name"],
    after (strayed refusing) (.compute 0 "f"), by rfl, by rfl, rfl, by decide, by decide +kernel,
    by decide +kernel, by rfl, by rfl, by rfl⟩

end Example

end Session

end LazyFields
