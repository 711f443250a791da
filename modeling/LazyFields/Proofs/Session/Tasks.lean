/-
  LazyFields.Proofs.Session.Tasks
  ────────────────────────────────
  **WHAT AN OPERATION STILL OWES.**

  An operation that watches, creates or triggers calls itself in the middle of
  things, so what holds between operations need not hold while one runs.  What
  is missing is always something that the operation is about to do: run the
  follow-ups of a field, register and compute a field that is watched for the
  first time, wake a field of a new instance.  These are `Task`s, and an
  invariant of sessions is stated for a view AND the tasks that are pending;
  between operations none is.

  `Cascade` and `Protocol` say what an invariant has to survive, one rule for
  each small step of the operations.  That the operations are made of these
  steps is shown once, for every invariant:

    · `Cascade` — recomputing fields and running their followers
    · `Protocol` — also registering, watching and waking
-/
import LazyFields.Proofs.Session.Compute
import LazyFields.Proofs.WatchGraph.Callbacks

namespace LazyFields

/-! ## §1. Regular views. -/

/-- Where a follow-up may stand: a field is computed again by what watches one
of its references. -/
def FollowUp.Fits (o : Outline) (address : String) : FollowUp → Prop
  | .recompute n field => ∃ m spec reference, o.Declares (n, field) m spec
      ∧ reference ∈ spec.refs ∧ m.targetAddress reference = address
  | .report n _ _ => ∃ m, o.member? n = some m

namespace View

variable {D : Node → Prop} {V : Node → Outcome → Prop} {u v w : View} {x : Node}
  {address watcher : String} {f : FollowUp}

/-- The follow-ups of a field, by watcher. -/
def callbacks (v : View) (address : String) : Table FollowUp := v.watches.callbacks address

/-- Somebody watches the field. -/
def Watched (v : View) (address : String) : Prop := ∃ watcher f,
  (v.callbacks address).get? watcher = some f

/-- The view after a watch. -/
def watch (v : View) (address watcher : String) (f : FollowUp) : View :=
  { v with watches := (v.watches.watch address watcher f).2 }

/-- What holds of every session, also in the middle of an operation. -/
structure Regular (v : View) : Prop where
  sound : v.outline.Sound
  alone : v.outline.catalog.ComputesAlone
  stocked : v.Stocked
  quiet : v.Quiet
  declared : ∀ {x s}, v.slots x = some s →
    ∃ m spec, v.outline.member? x.1 = some m ∧ m.kind.info.field? x.2 = some spec
  fits : ∀ {address watcher f}, (v.callbacks address).get? watcher = some f →
    f.Fits v.outline address

/-- The node watches everything that it refers to. -/
def Attached (v : View) (x : Node) : Prop :=
  ∀ m spec, v.outline.Declares x m spec → ∀ reference ∈ spec.refs,
    ∃ f, (v.callbacks (m.targetAddress reference)).get? (m.address x.2) = some f

/-- Watches were only added. -/
structure Extends (v w : View) : Prop where
  outline : w.outline = v.outline
  callbacks : ∀ {address watcher f}, (v.callbacks address).get? watcher = some f →
    (w.callbacks address).get? watcher = some f

/-- Watching changes the watch graph only. -/
@[simp] theorem watch_outline : (v.watch address watcher f).outline = v.outline := rfl

@[simp] theorem watch_slots : (v.watch address watcher f).slots = v.slots := rfl

/-- A field is not watched if nothing is registered for it. -/
theorem not_watched_iff : ¬ v.Watched address ↔ (v.callbacks address).isEmpty = true := by
  rw [Table.isEmpty_iff]
  constructor
  · intro h watcher
    cases hget : (v.callbacks address).get? watcher with
    | none => rfl
    | some f => exact absurd ⟨watcher, f, hget⟩ h
  · rintro h ⟨watcher, f, hget⟩
    simp [h watcher] at hget

/-- The watch graph knows whether a field is watched. -/
theorem hasWatchers_iff : v.watches.hasWatchers address = true ↔ v.Watched address := by
  have hempty := (not_watched_iff : ¬ v.Watched address ↔ _)
  rw [WatchGraph.hasWatchers, Bool.not_eq_true', ← Bool.not_eq_true]
  exact (not_congr hempty.symm).trans Classical.not_not

/-- Only the watch graph counts. -/
theorem callbacks_congr (h : w.watches = v.watches) (address : String) :
    w.callbacks address = v.callbacks address := by
  rw [callbacks, h, callbacks]

/-- Only slots have changed. -/
structure Steady (v w : View) : Prop where
  outline : w.outline = v.outline
  watches : w.watches = v.watches

theorem Steady.refl (v : View) : v.Steady v := ⟨rfl, rfl⟩

/-- Steady, and steady again. -/
theorem Steady.trans (h : u.Steady v) (k : v.Steady w) : u.Steady w :=
  ⟨k.outline.trans h.outline, k.watches.trans h.watches⟩

theorem Steady.symm (h : v.Steady w) : w.Steady v := ⟨h.outline.symm, h.watches.symm⟩

/-- Filling changes neither outline nor watch graph. -/
theorem Fills.steady (h : Fills D V v w) : v.Steady w := ⟨h.outline, h.watches⟩

/-- What is steady extends. -/
theorem Steady.extends (h : v.Steady w) : v.Extends w :=
  ⟨h.outline, fun hf => by rwa [callbacks_congr h.watches]⟩

theorem Extends.refl (v : View) : v.Extends v := ⟨rfl, id⟩

/-- Extending, and extending again. -/
theorem Extends.trans (h : u.Extends v) (k : v.Extends w) : u.Extends w :=
  ⟨k.outline.trans h.outline, fun hf => k.callbacks (h.callbacks hf)⟩

/-- Watching only adds to the watches. -/
theorem extends_watch : v.Extends (v.watch address watcher f) :=
  ⟨rfl, WatchGraph.get?_callbacks_watch_of_some⟩

/-- What is watched stays watched. -/
theorem Extends.watched (h : v.Extends w) (hwatched : v.Watched address) : w.Watched address := by
  obtain ⟨watcher, f, hf⟩ := hwatched
  exact ⟨watcher, f, h.callbacks hf⟩

/-- What is attached stays attached. -/
theorem Attached.extend (h : v.Attached x) (k : v.Extends w) : w.Attached x := by
  intro m spec hx reference href
  rw [k.outline] at hx
  obtain ⟨f, hf⟩ := h m spec hx reference href
  exact ⟨f, k.callbacks hf⟩

/-! ### Each small step keeps a view regular. -/

/-- Filling keeps a view regular. -/
theorem Regular.fills (h : v.Regular) (k : Fills D V v w) : w.Regular where
  sound := k.outline ▸ h.sound
  alone := k.outline ▸ h.alone
  stocked := k.stocked h.stocked
  quiet y previous hslot := by
    rcases k.slots y with hs | ⟨-, -, -, r, ⟨e, he, -⟩, -⟩
    · exact h.quiet y previous (hs ▸ hslot)
    · simp [hslot] at he
  declared {y s} hslot := by
    rw [k.outline]
    rcases k.slots y with hs | ⟨-, ⟨m, spec, hy, -⟩, -⟩
    · exact h.declared (hs ▸ hslot)
    · exact ⟨m, spec, hy.member, hy.field⟩
  fits hf := by
    rw [callbacks_congr k.watches] at hf
    rw [k.outline]
    exact h.fits hf

/-- The entry of a field is replaced; a static one gets a value. -/
theorem Regular.store (h : v.Regular) {m : Member} {spec : FieldSpec}
    (hx : v.outline.Declares x m spec) {r : Outcome} (hr : r ≠ .error .notReady)
    (hvalue : spec.isStatic = true → ∃ a, r = .ok a) (now : Int) :
    (v.put x (some (.stored (Entry.ofOutcome r now)))).Regular where
  sound := h.sound
  alone := h.alone
  stocked := by
    constructor
    · intro y e hy
      by_cases hne : y = x
      · subst hne
        obtain rfl : Entry.ofOutcome r now = e := by simpa using hy
        exact ⟨r, Entry.result?_ofOutcome r now, hr⟩
      · rw [put_slots_ne v hne] at hy
        exact h.stocked.entry hy
    · intro y m' spec' hy hstatic
      by_cases hne : y = x
      · subst hne
        obtain ⟨rfl, rfl⟩ := hy.eq hx
        obtain ⟨a, rfl⟩ := hvalue hstatic
        exact ⟨a, settled_put v y hr now⟩
      · obtain ⟨w, hw⟩ := h.stocked.given hy hstatic
        exact ⟨w, hw.congr (put_slots_ne v hne _)⟩
  quiet y previous hslot := by
    by_cases hne : y = x
    · subst hne
      simp at hslot
    · rw [put_slots_ne v hne] at hslot
      exact h.quiet y previous hslot
  declared {y s} hslot := by
    by_cases hne : y = x
    · subst hne
      exact ⟨m, spec, hx.member, hx.field⟩
    · rw [put_slots_ne v hne] at hslot
      exact h.declared hslot
  fits hf := h.fits hf

/-- The entry of a computed field is replaced. -/
theorem Regular.put (h : v.Regular) (hx : v.Computes x) {r : Outcome}
    (hr : r ≠ .error .notReady) (now : Int) :
    (v.put x (some (.stored (Entry.ofOutcome r now)))).Regular := by
  obtain ⟨m, spec, hx, hcomputed⟩ := hx
  refine h.store hx hr (fun hstatic => ?_) now
  simp [hcomputed] at hstatic

/-- A field that is settled stays so when another one, or itself, is settled. -/
theorem settled_put_of_settled {r : Outcome} (hr : r ≠ .error .notReady) (now : Int) {y : Node}
    {r' : Outcome} (hy : v.Settled y r') :
    ∃ r', (v.put x (some (.stored (Entry.ofOutcome r now)))).Settled y r' := by
  by_cases hyx : y = x
  · subst hyx
    exact ⟨r, settled_put v y hr now⟩
  · exact ⟨r', hy.congr (put_slots_ne v hyx _)⟩

/-- A watch that fits keeps a view regular. -/
theorem Regular.watch (h : v.Regular) (hf : f.Fits v.outline address) :
    (v.watch address watcher f).Regular where
  sound := h.sound
  alone := h.alone
  stocked := ⟨h.stocked.entry, h.stocked.given⟩
  quiet := h.quiet
  declared := h.declared
  fits {other name g} hg := by
    rcases WatchGraph.get?_callbacks_of_watch hg with hold | ⟨-, rfl, rfl, rfl⟩
    · exact h.fits hold
    · exact hf

/-- Follow-ups lead to computed fields. -/
theorem Regular.computes_of_fits (h : v.Regular) {n : Nat} {field : String}
    (hf : (FollowUp.recompute n field).Fits v.outline address) : v.Computes (n, field) := by
  obtain ⟨m, spec, reference, hx, href, -⟩ := hf
  refine ⟨m, spec, hx, ?_⟩
  cases hstatic : spec.isStatic with
  | false => rfl
  | true => simp [h.sound.lawful.static (h.sound.catalog_field? hx) hstatic] at href

/-- A field without an entry is a computed one. -/
theorem Regular.computes_of_slots (h : v.Regular) (hx : v.outline.Has x)
    (hnone : v.slots x = none) : v.Computes x := by
  obtain ⟨m, spec, hx⟩ := hx
  refine ⟨m, spec, hx, ?_⟩
  cases hstatic : spec.isStatic with
  | false => rfl
  | true =>
    obtain ⟨a, e, he, -⟩ := h.stocked.given hx hstatic
    simp [hnone] at he

/-- In a regular view nothing is being computed: a slot is empty or settled. -/
theorem Regular.slot (h : v.Regular) (x : Node) : v.slots x = none ∨ ∃ r, v.Settled x r := by
  cases hslot : v.slots x with
  | none => exact .inl rfl
  | some s =>
    cases s with
    | computing previous => exact absurd hslot (h.quiet x previous)
    | stored e =>
      obtain ⟨r, hr, hne⟩ := h.stocked.entry hslot
      exact .inr ⟨r, e, hslot, hr, hne⟩

end View

/-! ## §2. Tasks. -/

/-- Something that an operation is about to do. -/
inductive Task where
  /-- Run a follow-up. -/
  | run (f : FollowUp)
  /-- Watch everything that a field refers to. -/
  | enlist (x : Node)
  /-- Register and compute a field that is watched for the first time. -/
  | attach (x : Node)
  /-- Register and compute a field of a new instance, and run its followers. -/
  | wake (x : Node)

namespace View

/-- The follow-ups of a field, as tasks. -/
def followers (v : View) (address : String) : List Task :=
  (v.callbacks address).values.map .run

/-- The followers of an address are what its watchers registered. -/
theorem mem_followers {v : View} {address : String} {task : Task} :
    task ∈ v.followers address ↔
      ∃ watcher f, (v.callbacks address).get? watcher = some f ∧ task = .run f := by
  simp only [followers, List.mem_map, Table.mem_values]
  constructor
  · rintro ⟨f, ⟨watcher, hf⟩, rfl⟩
    exact ⟨watcher, f, hf, rfl⟩
  · rintro ⟨watcher, f, hf, rfl⟩
    exact ⟨f, ⟨watcher, hf⟩, rfl⟩

/-- The first watch of a field owes its target a registration. -/
def firstWatch (v : View) (address : String) (target : Option Node) : List Task :=
  if (v.callbacks address).isEmpty then target.toList.map .attach else []

end View

/-! ## §3. Invariants that the operations keep. -/

/-- An invariant that survives cascades.  `D` are the nodes that they reach,
`V` which outcomes computing a node can have. -/
structure Cascade (D : Node → Prop) (V : View → Node → Outcome → Prop)
    (J : List Task → View → Prop) : Prop where
  regular : ∀ {tasks v}, J tasks v → v.Regular
  closed : ∀ {tasks v}, J tasks v → v.Closed D (V v)
  scope : ∀ {tasks v n field}, J (.run (.recompute n field) :: tasks) v → D (n, field)
  fills : ∀ {tasks v w}, J tasks v → v.Fills D (V v) w → J tasks w
  report : ∀ {tasks v n field watcher}, J (.run (.report n field watcher) :: tasks) v → J tasks v
  /-- A field that is not ready stops the cascade. -/
  stalls : ∀ {tasks v n field}, J (.run (.recompute n field) :: tasks) v →
    v.Computes (n, field) → v.outline.Yields (V v) (n, field) (.error .notReady) → J tasks v
  /-- Any other outcome is stored and passed on. -/
  reruns : ∀ {tasks v w n field m spec r}, J (.run (.recompute n field) :: tasks) v →
    v.outline.Declares (n, field) m spec → spec.isStatic = false → v.Fills D (V v) w →
    v.outline.Yields (V v) (n, field) r → r ≠ .error .notReady → ∀ now,
    J (w.followers (m.address field) ++ tasks)
      (w.put (n, field) (some (.stored (Entry.ofOutcome r now))))

/-- An invariant that survives all operations that create nothing.  `Allows`
are the names that watchers may have. -/
structure Protocol (Allows : String → Prop) (V : View → Node → Outcome → Prop)
    (J : List Task → View → Prop) : Prop extends Cascade (fun _ => True) V J where
  /-- Running the followers of a field once more does no harm. -/
  fire : ∀ {tasks v} address, J tasks v → J (v.followers address ++ tasks) v
  enlist : ∀ {tasks v x}, J tasks v → v.outline.Has x → J (.enlist x :: tasks) v
  enlisted : ∀ {tasks v x}, J (.enlist x :: tasks) v → v.Attached x → J tasks v
  /-- A field that is being registered watches one of its references. -/
  follows : ∀ {tasks v x m spec reference}, J tasks v → .enlist x ∈ tasks →
    v.outline.Declares x m spec → reference ∈ spec.refs →
    J (v.firstWatch (m.targetAddress reference) (v.outline.target x.1 reference) ++ tasks)
      (v.watch (m.targetAddress reference) (m.address x.2) (.recompute x.1 x.2))
  attached : ∀ {tasks v w x a}, J (.attach x :: tasks) v → v.Attached x →
    v.Fills (fun _ => True) (V v) w → Session.Attempted (V v) x a w → J tasks w
  /-- Somebody else watches a field. -/
  watches : ∀ {tasks v x m spec watcher}, J tasks v → v.outline.Declares x m spec →
    Allows watcher →
    J (v.firstWatch (m.address x.2) (some x) ++ tasks)
      (v.watch (m.address x.2) watcher (.report x.1 x.2 watcher))
  sleeps : ∀ {tasks v x m spec}, J (.wake x :: tasks) v → v.outline.Declares x m spec →
    ¬ v.Watched (m.address x.2) → J tasks v
  /-- A field of a new instance is not ready yet. -/
  dozes : ∀ {tasks v w x}, J (.wake x :: tasks) v → v.Attached x →
    v.Fills (fun _ => True) (V v) w → V v x (.error .notReady) → w.slots x = none → J tasks w
  wakes : ∀ {tasks v w x m spec r}, J (.wake x :: tasks) v → v.Attached x →
    v.outline.Declares x m spec → v.Fills (fun _ => True) (V v) w → w.Settled x r →
    J (w.followers (m.address x.2) ++ tasks) w

end LazyFields
