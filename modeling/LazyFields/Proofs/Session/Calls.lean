/-
  LazyFields.Proofs.Session.Calls
  ────────────────────────────────
  **HOW OFTEN LOGIC IS CALLED.**

  The journal has every call of the logic of a field.  `Session.Memoizes` says
  of two moments of a session what was memoized in between: a computed field is
  as it was and its logic was not called, or it was open before and is settled
  now, and its logic was called once if at all.

  While follow-ups run, only fields without references are memoized in this
  sense, since the follow-ups compute the others again.  Where none runs, all
  fields are.  The parameter `cascades` tells the two apart, and every lemma
  here is about both.

    · `View.Overdue` — a field without references that is watched and open:
      reading such a field would run callbacks, and there is none between
      operations
    · `Fate` — what has become of one field in between
    · `Action.Returns`, `Action.Memoizing` — whatever the action answers, the
      session memoizes until then, and no field becomes overdue; with one rule for
      each way in which actions are put together

  Nothing is said of actions that do not answer, so neither ranks nor pending
  tasks are needed here.
-/
import LazyFields.Proofs.Session.Answer
import LazyFields.Proofs.Session.Tracks

namespace LazyFields

/-! ## §1. Calls in a journal. -/

/-- How often the logic of a field was called, for whatever instance of its
kind. -/
def callNumber (kind field : String) (journal : List Event) : Nat :=
  journal.countP fun
    | .computed k _ f _ => k = kind && f = field
    | _ => false

/-- The calls of the logic of a field of one instance, the latest first: the
values that it was given, and the number of the call. -/
def callsOf (kind id field : String) : List Event → List (List Value × Nat)
  | [] => []
  | .computed k i f values :: journal =>
      if k = kind ∧ i = id ∧ f = field then
        (values, callNumber kind field (.computed k i f values :: journal))
          :: callsOf kind id field journal
      else callsOf kind id field journal
  | _ :: journal => callsOf kind id field journal

section Journal

variable {kind id field : String} {values : List Value} {e : Event} {journal : List Event}

/-- A call of the field counts, with its number. -/
theorem callsOf_cons_self :
    callsOf kind id field (.computed kind id field values :: journal)
      = (values, callNumber kind field (.computed kind id field values :: journal))
        :: callsOf kind id field journal := by
  rw [callsOf, if_pos ⟨rfl, rfl, rfl⟩]

/-- Other events do not count. -/
theorem callsOf_cons_of_ne (h : ∀ values, e ≠ .computed kind id field values) :
    callsOf kind id field (e :: journal) = callsOf kind id field journal := by
  cases e with
  | computed k i f values =>
    rw [callsOf, if_neg]
    rintro ⟨rfl, rfl, rfl⟩
    exact h values rfl
  | _ => rw [callsOf]; simp

end Journal

/-! ## §2. Fields without references. -/

/-- A computed field that refers to nothing. -/
def Outline.Bare (o : Outline) (x : Node) : Prop :=
  ∃ m spec, o.Declares x m spec ∧ spec.isStatic = false ∧ spec.refs = []

/-- A declared field is bare if it is computed from nothing. -/
theorem Outline.Declares.bare_iff {o : Outline} {x : Node} {m : Member} {spec : FieldSpec}
    (hx : o.Declares x m spec) : o.Bare x ↔ spec.isStatic = false ∧ spec.refs = [] := by
  constructor
  · rintro ⟨m', spec', hx', hbare⟩
    obtain ⟨-, rfl⟩ := hx'.eq hx
    exact hbare
  · exact fun hbare => ⟨m, spec, hx, hbare⟩

/-- A field that its kind does not have is not declared. -/
theorem Outline.not_has_of_undeclared {o : Outline} {x : Node} {m : Member}
    (hm : o.member? x.1 = some m) (hfield : m.kind.info.field? x.2 = none) : ¬ o.Has x := by
  rintro ⟨m', spec, hx⟩
  obtain rfl : m = m' := Option.some.inj (hm.symm.trans hx.member)
  exact absurd (hfield.symm.trans hx.field) (by simp)

/-- The instance is there, and was not discarded. -/
def Outline.Keeps (o : Outline) (n : Nat) : Prop :=
  ∃ m, o.member? n = some m ∧ m.discarded = false

/-- Somebody watches the field, which refers to nothing, and yet it is open. -/
structure View.Overdue (v : View) (x : Node) : Prop where
  bare : v.outline.Bare x
  unsettled : v.Open x
  watched : ∃ m, v.outline.member? x.1 = some m ∧ v.Watched (m.address x.2)

/-- Only outline, slot and watch graph count. -/
theorem View.Overdue.congr {v w : View} {x : Node} (h : v.Overdue x)
    (ho : w.outline = v.outline) (hslot : w.slots x = v.slots x)
    (hwatches : w.watches = v.watches) : w.Overdue x := by
  obtain ⟨hbare, hopen, m, hm, watcher, f, hf⟩ := h
  refine ⟨ho ▸ hbare, hopen.congr hslot, m, ho ▸ hm, watcher, f, ?_⟩
  rwa [View.callbacks_congr hwatches]

/-- A settled field is not open. -/
theorem View.Settled.not_open {v : View} {x : Node} {r : Outcome} (h : v.Settled x r) :
    ¬ v.Open x := fun hopen => hopen.2 h.finished

namespace Session

variable {s t u : Session} {x y : Node} {m : Member} {spec : FieldSpec} {cascades : Prop}

/-- The calls of the logic of a field of an instance. -/
def calls (s : Session) (m : Member) (field : String) : List (List Value × Nat) :=
  callsOf m.kind.name m.id field s.journal

/-- No logic of a field was called in between. -/
def SameCalls (s t : Session) : Prop :=
  ∀ kind id field, callsOf kind id field t.journal = callsOf kind id field s.journal

/-! ## §3. Two moments of a session. -/

/-- What has become of a computed field that was not computed again. -/
inductive Fate (s t : Session) (x : Node) (m : Member) (spec : FieldSpec) : Prop where
  /-- It is as it was. -/
  | kept (hslot : t.view.slots x = s.view.slots x) (hcalls : t.calls m x.2 = s.calls m x.2)
  /-- It failed before its logic was called. -/
  | failed (hopen : s.view.Open x) (hfinished : t.view.Finished x)
      (hcalls : t.calls m x.2 = s.calls m x.2)
  /-- Its logic was called once, and what came of it is stored. -/
  | called (hopen : s.view.Open x) {values : List Value} {number : Nat}
      (hcalls : t.calls m x.2 = (values, number) :: s.calls m x.2)
      (hsettled : t.view.Settled x (m.outcome x spec values number))

namespace Fate

/-- Whatever is not open stays as it is. -/
theorem kept_of_not_open (h : Fate s t x m spec) (hx : ¬ s.view.Open x) :
    t.view.slots x = s.view.slots x ∧ t.calls m x.2 = s.calls m x.2 := by
  cases h with
  | kept hslot hcalls => exact ⟨hslot, hcalls⟩
  | failed hopen => exact absurd hopen hx
  | called hopen => exact absurd hopen hx

/-- The first of two moments may be replaced by one at which the field is the same. -/
theorem of_start {s' : Session} (h : Fate s t x m spec)
    (hslot : s.view.slots x = s'.view.slots x) (hcalls : s.calls m x.2 = s'.calls m x.2) :
    Fate s' t x m spec := by
  cases h with
  | kept hslot' hcalls' => exact .kept (hslot'.trans hslot) (hcalls'.trans hcalls)
  | failed hopen hfinished hcalls' =>
    exact .failed (hopen.congr hslot.symm) hfinished (hcalls'.trans hcalls)
  | called hopen hcalls' hsettled =>
    exact .called (hopen.congr hslot.symm) (hcalls'.trans (hcalls ▸ rfl)) hsettled

/-- So may the second one. -/
theorem of_end {t' : Session} (h : Fate s t x m spec)
    (hslot : t'.view.slots x = t.view.slots x) (hcalls : t'.calls m x.2 = t.calls m x.2) :
    Fate s t' x m spec := by
  cases h with
  | kept hslot' hcalls' => exact .kept (hslot.trans hslot') (hcalls.trans hcalls')
  | failed hopen hfinished hcalls' =>
    exact .failed hopen (hfinished.congr hslot) (hcalls.trans hcalls')
  | called hopen hcalls' hsettled =>
    exact .called hopen (hcalls.trans hcalls') (hsettled.congr hslot)

/-- What becomes of a field in two steps. -/
theorem trans (h : Fate s t x m spec) (k : Fate t u x m spec) : Fate s u x m spec := by
  by_cases ht : t.view.Open x
  · -- an open field was not touched before
    cases h with
    | kept hslot hcalls => exact k.of_start hslot hcalls
    | failed _ hfinished => exact absurd hfinished ht.2
    | called _ _ hsettled => exact absurd ht hsettled.not_open
  · obtain ⟨hslot, hcalls⟩ := k.kept_of_not_open ht
    exact h.of_end hslot hcalls

end Fate

/-- No field is computed more than once from the first session to the second
one, unless it refers to something and follow-ups run. -/
structure Memoizes (cascades : Prop) (s t : Session) : Prop where
  outline : t.view.outline = s.view.outline
  fate : ∀ {x m spec}, s.view.outline.Declares x m spec → spec.isStatic = false →
    (cascades → spec.refs = []) → Fate s t x m spec
  /-- Logic is called for instances that are there. -/
  others : ∀ {kind id field}, (∀ n m, s.view.outline.member? n = some m → m.discarded = false →
    m.kind.name = kind → m.id ≠ id) →
      callsOf kind id field t.journal = callsOf kind id field s.journal
  /-- No field becomes overdue. -/
  overdue : ∀ {x}, t.view.Overdue x → s.view.Overdue x

namespace Memoizes

/-- Neither a cache nor the calls have changed. -/
theorem of_same (houtline : t.view.outline = s.view.outline)
    (hslots : t.view.slots = s.view.slots) (hcalls : s.SameCalls t)
    (hoverdue : ∀ {x}, t.view.Overdue x → s.view.Overdue x) : s.Memoizes cascades t where
  outline := houtline
  fate _ _ _ := .kept (congrFun hslots _) (hcalls _ _ _)
  others _ := hcalls _ _ _
  overdue := hoverdue

/-- A step that neither is seen nor calls logic memoizes. -/
theorem of_view (hview : t.view = s.view) (hcalls : s.SameCalls t) : s.Memoizes cascades t :=
  of_same (by rw [hview]) (by rw [hview]) hcalls fun h => hview ▸ h

theorem refl (cascades : Prop) (s : Session) : s.Memoizes cascades s :=
  of_view rfl fun _ _ _ => rfl

/-- Memoizing, and memoizing again. -/
theorem trans (h : s.Memoizes cascades t) (k : t.Memoizes cascades u) :
    s.Memoizes cascades u where
  outline := k.outline.trans h.outline
  fate hx hcomputed honce :=
    (h.fate hx hcomputed honce).trans (k.fate (h.outline ▸ hx) hcomputed honce)
  others hnone := (k.others (h.outline ▸ hnone)).trans (h.others hnone)
  overdue hx := h.overdue (k.overdue hx)

/-- Where no follow-up runs more is memoized. -/
theorem mono {cascades' : Prop} (h : s.Memoizes cascades t) (himp : cascades → cascades') :
    s.Memoizes cascades' t where
  outline := h.outline
  fate hx hcomputed honce := h.fate hx hcomputed fun hc => honce (himp hc)
  others := h.others
  overdue := h.overdue

end Memoizes

/-- The session has the given instances, and its follow-ups stand where they may. -/
structure Orderly (o : Outline) (s : Session) : Prop where
  outline : s.view.outline = o
  fits : ∀ {address watcher f}, (s.view.callbacks address).get? watcher = some f →
    f.Fits o address

/-- Only outline and watch graph count. -/
theorem Orderly.congr {o : Outline} (h : s.Orderly o) (houtline : t.view.outline = s.view.outline)
    (hwatches : t.view.watches = s.view.watches) : t.Orderly o where
  outline := houtline.trans h.outline
  fits hf := h.fits (View.callbacks_congr hwatches _ ▸ hf)

/-- A slot does not count. -/
theorem Orderly.put {o : Outline} (h : s.Orderly o) {slot : Option Slot}
    (hview : t.view = s.view.put x slot) : t.Orderly o :=
  h.congr (by rw [hview]; rfl) (by rw [hview]; rfl)

/-- An orderly session over a sound outline runs. -/
theorem Orderly.live {o : Outline} (h : s.Orderly o) (ho : o.Sound) : s.live = true := by
  have hlive : s.view.outline.live = true := h.outline ▸ ho.live
  exact hlive

end Session

/-! ## §4. What actions answer. -/

namespace Action

variable {α β : Type}

/-- Whatever the action answers on the session, `Q` holds of the answer and of the session
that it leaves. -/
def Returns (a : Action α) (s : Session) (Q : Except Error α → Session → Prop) : Prop :=
  ∀ r t, a.runOn s = some (r, t) → Q r t

variable {a : Action α} {f : α → Action β} {s t : Session}
  {P Q : Except Error α → Session → Prop} {R : Except Error β → Session → Prop}

namespace Returns

/-- Less may be said of the end. -/
theorem mono (h : a.Returns s P) (k : ∀ r t, P r t → Q r t) : a.Returns s Q :=
  fun r t hrun => k r t (h r t hrun)

/-- What is known of the only run holds of every run. -/
theorem of_runOn {r : Except Error α} (hrun : a.runOn s = some (r, t)) (hq : Q r t) :
    a.Returns s Q := by
  intro r' t' hrun'
  rw [hrun] at hrun'
  cases hrun'
  exact hq

/-- The second action starts from what is known of the end of the first one. -/
theorem bind (h : a.Returns s P) (hok : ∀ x t, P (.ok x) t → (f x).Returns t R)
    (herror : ∀ e t, P (.error e) t → R (.error e) t) : (a >>= f).Returns s R := by
  intro r u hrun
  rcases parts_of_runOn_bind hrun with ⟨x, t, hfirst, hsecond⟩ | ⟨e, hfirst, rfl⟩
  · exact hok x t (h _ _ hfirst) r u hsecond
  · exact herror e u (h _ _ hfirst)

/-- A first action that is known to succeed. -/
theorem next {x : α} (h : a.runOn s = some (.ok x, t)) (k : (f x).Returns t R) :
    (a >>= f).Returns s R := by
  intro r u hrun
  rw [runOn_bind_ok h] at hrun
  exact k r u hrun

/-- A first action that is known to fail. -/
theorem stop {e : Error} (h : a.runOn s = some (.error e, t)) (hr : R (.error e) t) :
    (a >>= f).Returns s R :=
  of_runOn (by rw [runOn_bind, h]) hr

/-- An attempt answers whatever the action answers. -/
theorem attempt {R : Except Error (Except Error α) → Session → Prop}
    (h : a.Returns s fun r t => R (.ok r) t) : (Action.attempt a).Returns s R := by
  intro r t hrun
  obtain ⟨r', rfl, hattempted⟩ := runOn_of_attempt hrun
  exact h _ _ hattempted

end Returns

/-- What an action comes to is what it answers. -/
theorem Ends.and_returns {a : Performer → Action α} (h : Ends a s P)
    (k : ∀ fuel, (a (Session.perform fuel)).Returns s Q) : Ends a s fun r t => P r t ∧ Q r t := by
  obtain ⟨r, t, ⟨fuel, hrun⟩, hp⟩ := h
  exact ⟨r, t, ⟨fuel, hrun⟩, hp, k fuel r t (hrun fuel (Nat.le_refl fuel))⟩

/-- Whatever the action answers, the session memoizes until then, and `Q` holds. -/
def Memoizing (cascades : Prop) (o : Outline) (a : Action α) (s : Session)
    (Q : Except Error α → Session → Prop) : Prop :=
  a.Returns s fun r t => t.Orderly o ∧ s.Memoizes cascades t ∧ Q r t

variable {cascades : Prop} {o : Outline}

namespace Memoizing

/-- Less may be said of the end. -/
theorem mono (h : Memoizing cascades o a s P) (k : ∀ r t, P r t → Q r t) :
    Memoizing cascades o a s Q :=
  Returns.mono h fun r t ht => ⟨ht.1, ht.2.1, k r t ht.2.2⟩

/-- An action that changes nothing. -/
theorem of_runOn {r : Except Error α} (hs : s.Orderly o) (hrun : a.runOn s = some (r, s))
    (hq : Q r s) : Memoizing cascades o a s Q :=
  Returns.of_runOn hrun ⟨hs, .refl cascades s, hq⟩

/-- An answer calls nothing. -/
theorem pure {x : α} (hs : s.Orderly o) (hq : Q (.ok x) s) :
    Memoizing cascades o (Pure.pure x : Action α) s Q :=
  of_runOn hs (runOn_pure x s) hq

/-- An error calls nothing. -/
theorem throw {e : Error} (hs : s.Orderly o) (hq : Q (.error e) s) :
    Memoizing cascades o (MonadExcept.throw e : Action α) s Q :=
  of_runOn hs (runOn_throw e s) hq

theorem stuck : Memoizing cascades o (Action.stuck : Action α) s Q := by
  intro r t hrun
  simp at hrun

/-- Two memoizing actions one after the other, the second where the first one
ended. -/
theorem bind (h : Memoizing cascades o a s P)
    (hok : ∀ x t, t.Orderly o → s.Memoizes cascades t → P (.ok x) t →
      Memoizing cascades o (f x) t R)
    (herror : ∀ e t, s.Memoizes cascades t → P (.error e) t → R (.error e) t) :
    Memoizing cascades o (a >>= f) s R := by
  refine Returns.bind h ?_ ?_
  · rintro x t ⟨ht, hst, hp⟩
    refine Returns.mono (hok x t ht hst hp) ?_
    rintro r u ⟨hu, htu, hr⟩
    exact ⟨hu, hst.trans htu, hr⟩
  · rintro e t ⟨ht, hst, hp⟩
    exact ⟨ht, hst, herror e t hst hp⟩

/-- A first action that changes nothing and succeeds. -/
theorem next {x : α} (h : a.runOn s = some (.ok x, s)) (k : Memoizing cascades o (f x) s R) :
    Memoizing cascades o (a >>= f) s R := Returns.next h k

/-- A first action that changes nothing and fails. -/
theorem stop {e : Error} (hs : s.Orderly o) (h : a.runOn s = some (.error e, s))
    (hr : R (.error e) s) : Memoizing cascades o (a >>= f) s R :=
  Returns.stop h ⟨hs, .refl cascades s, hr⟩

/-- Going on whatever comes of a first action. -/
theorem attempt_bind {f : Except Error α → Action β} (h : Memoizing cascades o a s P)
    (k : ∀ r t, t.Orderly o → s.Memoizes cascades t → P r t → Memoizing cascades o (f r) t R) :
    Memoizing cascades o (Action.attempt a >>= f) s R := by
  have hattempt : Memoizing cascades o (Action.attempt a) s fun r t => ∃ r', r = .ok r' ∧ P r' t :=
    Returns.attempt (Returns.mono h fun r t ht => ⟨ht.1, ht.2.1, r, rfl, ht.2.2⟩)
  refine hattempt.bind ?_ ?_
  · rintro r t ht hst ⟨r', hr, hp⟩
    obtain rfl := Except.ok.inj hr
    exact k r t ht hst hp
  · rintro e t - ⟨r', hr, -⟩
    cases hr

/-- Ignoring what a memoizing action answers. -/
theorem ignore {R : Except Error Unit → Session → Prop}
    (h : Memoizing cascades o a s fun _ t => R (.ok ()) t) :
    Memoizing cascades o (Action.ignore a) s R :=
  attempt_bind h fun _ _ ht _ hr => .pure ht hr

/-- A loop whose steps keep `I`. -/
theorem forM {xs : List α} {f : α → Action Unit} {I : List α → Session → Prop}
    (hstep : ∀ x xs s, s.Orderly o → I (x :: xs) s →
      Memoizing cascades o (f x) s fun r t => r = .ok () ∧ I xs t) :
    ∀ s, s.Orderly o → I xs s →
      Memoizing cascades o (xs.forM f) s fun r t => r = .ok () ∧ I [] t := by
  induction xs with
  | nil => exact fun s hs hI => .pure hs ⟨rfl, hI⟩
  | cons x xs ih =>
    intro s hs hI
    refine (hstep x xs s hs hI).bind ?_ ?_
    · exact fun _ t ht _ hr => ih t ht hr.2
    · exact fun e t _ hr => absurd hr.1 (by simp)

end Memoizing

end Action

end LazyFields
