/-
  LazyFields.Proofs.Session.Congruence
  ────────────────────────────────
  **WHAT AN ACTION INHERITS FROM ITS PARTS.**

  Much of what is shown of operations is a relation between two runs of an
  action, with two ways to perform the operations within it: the second run
  agrees with the first one, or else something is known of where the first one
  passes.  Such a relation needs three rules, and then it goes through the
  functions of a session by itself.

    · `Action.Inert` — the action changes neither the outline of a session nor
      its watch graph; all the small actions are inert
    · `Congruence` — a relation that inert actions have to themselves, and that
      is kept when actions are put together
    · `Congruence.computeField`, `Congruence.readField`, ... — every function
      that changes no more than caches has it, when the operations that it
      performs do

  What changes the watch graph or constructs an instance is not treated here,
  since that is where one such relation differs from the next.
-/
import LazyFields.Proofs.Session.View

namespace LazyFields

/-! ## §1. Actions in two parts. -/

namespace Action

variable {α β : Type} {a : Action α} {f : α → Action β} {s t : Session}

/-- An action in two parts ends where the second part ends, or with an error
where the first one ends. -/
theorem parts_of_runOn_bind {r : Except Error β} {u : Session}
    (h : (a >>= f).runOn s = some (r, u)) :
    (∃ x t, a.runOn s = some (.ok x, t) ∧ (f x).runOn t = some (r, u))
      ∨ ∃ e, a.runOn s = some (.error e, u) ∧ r = .error e := by
  rw [runOn_bind] at h
  split at h
  · simp at h
  · next x t hfirst => exact .inl ⟨x, t, hfirst, h⟩
  · next e t hfirst =>
    cases h
    exact .inr ⟨e, hfirst, rfl⟩

/-- Both parts of an action that succeeds succeed. -/
theorem oks_of_runOn_bind {y : β} {u : Session} (h : (a >>= f).runOn s = some (.ok y, u)) :
    ∃ x t, a.runOn s = some (.ok x, t) ∧ (f x).runOn t = some (.ok y, u) := by
  rcases parts_of_runOn_bind h with hparts | ⟨e, -, he⟩
  · exact hparts
  · cases he

/-! ## §2. Actions that change caches at most. -/

/-- Whatever the action answers, it leaves the outline of the session and its
watch graph as they are. -/
def Inert (a : Action α) : Prop :=
  ∀ s r t, a.runOn s = some (r, t) → t.outline = s.outline ∧ t.watches = s.watches

namespace Inert

/-- What is answered without looking at the session changes nothing. -/
theorem ofResult (r : Except Error α) : Inert (Action.ofResult r) := by
  intro s r' t h
  cases h
  exact ⟨rfl, rfl⟩

theorem pure (x : α) : Inert (Pure.pure x : Action α) := ofResult (.ok x)

theorem throw (e : Error) : Inert (MonadExcept.throw e : Action α) := ofResult (.error e)

theorem stuck : Inert (Action.stuck : Action α) := by
  intro s r t h
  simp at h

/-- Two inert actions one after the other are inert. -/
theorem bind (h : Inert a) (k : ∀ x, Inert (f x)) : Inert (a >>= f) := by
  intro s r u hrun
  rcases parts_of_runOn_bind hrun with ⟨x, t, hfirst, hsecond⟩ | ⟨e, hfirst, -⟩
  · obtain ⟨houtline, hwatches⟩ := h s _ t hfirst
    obtain ⟨houtline', hwatches'⟩ := k x t r u hsecond
    exact ⟨houtline'.trans houtline, hwatches'.trans hwatches⟩
  · exact h s _ u hfirst

end Inert

end Action

open LazyFields.Action (Inert)

namespace Session

/-- Looking at the session changes nothing. -/
theorem inert_get : Inert (get : Action Session) := by
  intro s r t h
  cases h
  exact ⟨rfl, rfl⟩

/-- A change that leaves outline and watch graph alone is inert. -/
theorem inert_modify {f : Session → Session}
    (h : ∀ s, (f s).outline = s.outline ∧ (f s).watches = s.watches) :
    Inert (modify f : Action PUnit) := by
  intro s r t hrun
  cases hrun
  exact h s

/-- The journal is no part of the outline. -/
theorem inert_note (e : Event) : Inert (note e) := inert_modify fun _ => ⟨rfl, rfl⟩

/-- Finding an instance changes nothing. -/
theorem inert_getInstance (n : Nat) : Inert (getInstance n) := by
  unfold getInstance
  refine .bind inert_get fun s => ?_
  split
  · exact .pure _
  · exact .stuck

/-- Finding a declared field changes nothing. -/
theorem inert_declared (n : Nat) (field : String) : Inert (declared n field) := by
  unfold declared
  refine .bind (inert_getInstance n) fun i => ?_
  split
  · exact .pure _
  · exact .throw _

/-- Asking whether the session runs changes nothing. -/
theorem inert_requireLive (n : Nat) : Inert (requireLive n) := by
  unfold requireLive
  refine .bind (inert_getInstance n) fun i => .bind inert_get fun s => ?_
  split
  · exact .pure ()
  · exact .throw _

/-- Looking at a cached result changes nothing. -/
theorem inert_cached? (n : Nat) (field : String) : Inert (cached? n field) :=
  .bind (inert_getInstance n) fun _ => .pure _

/-- A change of one cache is inert: the outline does not see caches. -/
theorem inert_onCache {α : Type} (n : Nat) (f : Cache → α × Cache) : Inert (onCache n f) :=
  .bind (inert_getInstance n) fun _ =>
    .bind (inert_modify fun s => ⟨s.outline_setCache n _, rfl⟩) fun _ => .pure _

/-- Finding what a reference leads to changes nothing. -/
theorem inert_targetOf (n : Nat) (reference : String) : Inert (targetOf n reference) := by
  unfold targetOf
  split
  · exact .bind (inert_getInstance n) fun _ => .pure _
  · exact .bind (inert_requireLive n) fun _ => .bind inert_get fun _ =>
      .bind (.ofResult _) fun _ => .pure _

/-- Giving a claim back changes a cache only. -/
theorem inert_abandon (n : Nat) (field : String) (e : Error) : Inert (abandon n field e) :=
  .bind (inert_onCache n _) fun _ => .throw e

/-- Storing a result, or giving the claim back, changes a cache only. -/
theorem inert_conclude (n : Nat) (field : String) (result : Except Error Value) :
    Inert (conclude n field result) := by
  unfold conclude
  refine .bind inert_get fun s => ?_
  split
  · exact inert_onCache n _
  · exact inert_abandon n field _
  · exact .bind (inert_onCache n _) fun _ => .throw _

/-- Finding an instance by its id changes nothing. -/
theorem inert_lookup (kind id : String) : Inert (lookup kind id) :=
  .bind inert_get fun _ => .bind (.ofResult _) fun _ => .pure _

/-- Listing a kind changes nothing. -/
theorem inert_listKind (kind : String) : Inert (listKind kind) :=
  .bind inert_get fun _ => .bind (.ofResult _) fun _ => .pure _

/-- Storing an entry from outside changes a cache only. -/
theorem inert_store (n : Nat) (field : String) (data : Value) :
    Inert (do storeEntry n field (Entry.ofValue data (← get).now)) :=
  .bind inert_get fun _ => inert_onCache n _

/-- A change of every published instance that changes nothing but caches. -/
theorem mapPublished_inert {f : Instance → Instance} (h : ∀ i, (f i).member = i.member)
    (s : Session) :
    (s.mapPublished f).outline = s.outline ∧ (s.mapPublished f).watches = s.watches := by
  unfold mapPublished
  generalize s.published.values = ns
  induction ns generalizing s with
  | nil => exact ⟨rfl, rfl⟩
  | cons n ns ih =>
    obtain ⟨houtline, hwatches⟩ := ih (s.modifyInstance n f)
    exact ⟨houtline.trans (outline_modifyInstance_self h s n), hwatches⟩

/-- Expiry changes caches only. -/
theorem inert_expire (age : Nat) : Inert (expire age) := by
  intro s r t hrun
  cases hrun
  exact mapPublished_inert (f := fun i => (expireInstance (cutoff s.now age) i).2)
    (fun _ => rfl) s

end Session

/-! ## §3. Relations that go through actions. -/

/-- A relation between actions, which inert actions have to themselves, and
which is kept when actions are put together. -/
structure Congruence (R : (α : Type) → Action α → Action α → Prop) : Prop where
  inert : ∀ {α : Type} {a : Action α}, a.Inert → R α a a
  bind : ∀ {α β : Type} {a b : Action α} {f g : α → Action β}, R α a b →
    (∀ x, R β (f x) (g x)) → R β (a >>= f) (b >>= g)
  attempt : ∀ {α : Type} {a b : Action α}, R α a b →
    R (Except Error α) (Action.attempt a) (Action.attempt b)

/-- Functions of a session perform these operations within themselves.  All
others come from outside, or from logic. -/
def Operation.IsInner : Operation → Prop
  | register .. | compute .. | recompute .. | field .. | resolve .. | trigger .. | fire .. => True
  | _ => False

/-- What the operation does itself may change the watch graph, or add an
instance. -/
def Operation.Reshapes : Operation → Prop
  | register .. | create .. | watch .. | watchCompute .. | unregister .. => True
  | _ => False

namespace Congruence

variable {R : (α : Type) → Action α → Action α → Prop} (C : Congruence R) {α β : Type}

include C

theorem pure (x : α) : R α (Pure.pure x) (Pure.pure x) := C.inert (.pure x)

theorem throw (e : Error) : R α (MonadExcept.throw e) (MonadExcept.throw e) := C.inert (.throw e)

theorem ofResult (r : Except Error α) : R α (Action.ofResult r) (Action.ofResult r) :=
  C.inert (.ofResult r)

/-- What becomes of an ignored action does not matter. -/
theorem ignore {a b : Action α} (h : R α a b) : R Unit (Action.ignore a) (Action.ignore b) :=
  C.bind (C.attempt h) fun _ => C.pure ()

/-- Related actions for every member of a list. -/
theorem forM {f g : α → Action Unit} (h : ∀ x, R Unit (f x) (g x)) :
    ∀ xs : List α, R Unit (xs.forM f) (xs.forM g)
  | [] => C.pure ()
  | x :: xs => C.bind (h x) fun _ => forM h xs

/-- Related actions for every member of a list, whose answers are collected. -/
theorem mapM {f g : α → Action β} (h : ∀ x, R β (f x) (g x)) (xs : List α) :
    R (List β) (xs.mapM f) (xs.mapM g) := by
  induction xs with
  | nil => exact C.pure []
  | cons x xs ih =>
    simp only [List.mapM_cons]
    exact C.bind (h x) fun _ => C.bind ih fun _ => C.pure _

/-- A program is a sequence of operations. -/
theorem program {call call' : Performer} (h : ∀ op, R _ (call op) (call' op)) (p : Program α) :
    R α (p.run call) (p.run call') := by
  induction p with
  | done r => exact C.ofResult r
  | ask op next ih => exact C.bind (C.attempt (h op)) ih

section Programs

open LazyFields.Session

variable {call call' : Performer} (h : ∀ op, R _ (call op) (call' op))

include h

/-- Running logic is a program with a note before it and a result stored after
it. -/
theorem runLogic (n : Nat) (info : FieldSpec) (field : String) (values : List Value) :
    R _ (runLogic call n info field values) (runLogic call' n info field values) := by
  unfold Session.runLogic
  refine C.bind (C.inert (inert_getInstance n)) fun i => ?_
  split
  · exact C.inert (inert_conclude n field _)
  · exact C.bind (C.inert (inert_note _)) fun _ => C.bind (C.inert inert_get) fun _ =>
      C.bind (C.attempt (C.program h _)) fun _ => C.inert (inert_conclude n field _)

/-- What runs before construction is a program, if there is any. -/
theorem prepare (k : Kind) (args : Args) : R _ (prepare call k args) (prepare call' k args) := by
  unfold Session.prepare
  split
  · exact C.pure _
  · exact C.bind (C.inert (inert_note _)) fun _ => C.bind (C.inert inert_get) fun _ =>
      C.program h _

/-- The id is forced, empty, or chosen by a program. -/
theorem chooseId (k : Kind) (n : Nat) (forced : Option String) :
    R _ (chooseId call k n forced) (chooseId call' k n forced) := by
  unfold Session.chooseId
  split
  · exact C.pure _
  · exact C.pure _
  · exact C.bind (C.inert (inert_note _)) fun _ => C.bind (C.inert inert_get) fun _ =>
      C.program h _

end Programs

section Performers

open LazyFields.Session

variable {call call' : Performer} (h : ∀ op : Operation, op.IsInner → R _ (call op) (call' op))

include h

/-! ## §4. Computing and reading. -/

/-- Gathering goes on from reference to reference up to the first that has no
value. -/
theorem gather (n : Nat) (refs : List String) :
    R _ (gather call n refs) (gather call' n refs) := by
  induction refs with
  | nil => exact C.pure _
  | cons reference refs ih =>
    refine C.bind (C.attempt (C.inert (inert_targetOf n reference))) fun target => ?_
    obtain e | ⟨_ | source, field, address⟩ := target
    · exact C.pure _
    · exact C.pure _
    · refine C.bind (C.attempt (C.bind (h (.compute source field) trivial) fun _ =>
        h (.field source field) trivial)) fun r => ?_
      split
      · exact C.pure _
      · exact C.pure _
      · refine C.bind ih fun gathered => ?_
        split
        · exact C.pure _
        · exact C.pure _

/-- Computing a field is related when running its logic is. -/
theorem computeField (hlogic : ∀ n info field values,
      R _ (Session.runLogic call n info field values) (Session.runLogic call' n info field values))
    (n : Nat) (field : String) (force : Bool) :
    R _ (computeField call n field force) (computeField call' n field force) := by
  unfold Session.computeField
  refine C.bind (C.inert (inert_declared n field)) fun info => ?_
  split
  · exact C.pure ()
  · refine C.bind (C.inert (inert_onCache n _)) fun claim => ?_
    cases claim with
    | ready e => exact C.pure ()
    | busy => exact C.throw _
    | acquired =>
      refine C.bind (C.gather h n _) fun gathered => ?_
      cases gathered with
      | values vs => exact hlogic n info field vs
      | blocked e => exact C.inert (inert_abandon n field e)
      | failed e => exact C.inert (inert_conclude n field _)

/-- Reading goes to the cache first, then computes where it may, and fires. -/
theorem readField (n : Nat) (field : String) :
    R _ (readField call n field) (readField call' n field) := by
  unfold Session.readField
  refine C.bind (C.inert (inert_declared n field)) fun info =>
    C.bind (C.inert (inert_cached? n field)) fun cached => ?_
  cases cached with
  | some r => exact C.ofResult r
  | none =>
    refine C.bind (C.inert (inert_getInstance n)) fun i => ?_
    split
    · exact C.throw _
    · split
      · exact C.throw _
      · refine C.bind (C.attempt (h (.compute n field) trivial)) fun computed => ?_
        split
        · exact C.throw _
        · refine C.bind (C.inert (inert_cached? n field)) fun cached => ?_
          cases cached with
          | none => exact C.throw _
          | some r =>
            refine C.bind (C.inert inert_get) fun s => ?_
            split
            · exact C.bind (h (.fire _) trivial) fun _ => C.ofResult r
            · exact C.ofResult r

/-- Resolving registers, computes and reads. -/
theorem resolveField (n : Nat) (field : String) :
    R _ (resolveField call n field) (resolveField call' n field) := by
  unfold Session.resolveField
  refine C.bind (h (.register n field) trivial) fun _ =>
    C.bind (C.attempt (h (.compute n field) trivial)) fun computed => ?_
  split
  · exact C.throw _
  · exact h (.field n field) trivial

/-- Resolving many instances is resolving each of them. -/
theorem resolveAll (ns : List Nat) (field : String) (failFast : Bool) :
    R _ (resolveAll call ns field failFast) (resolveAll call' ns field failFast) := by
  unfold Session.resolveAll
  refine C.bind (C.mapM (fun n => C.attempt (h (.resolve n field) trivial)) ns) fun results => ?_
  dsimp only
  split
  · exact C.throw _
  · exact C.pure results

/-- Trying again is resolving again, as often as is allowed. -/
theorem retryField (n : Nat) (field : String) (retries : Nat) :
    R _ (retryField call n field retries) (retryField call' n field retries) := by
  induction retries with
  | zero => exact h (.resolve n field) trivial
  | succ retries ih =>
    refine C.bind (C.attempt (h (.resolve n field) trivial)) fun r => ?_
    split
    · exact ih
    · exact C.ofResult _

/-! ## §5. Triggering and finding. -/

/-- A watcher is told, or the field that depends on it is computed again and
triggered. -/
theorem runFollowUp (followUp : FollowUp) :
    R _ (runFollowUp call followUp) (runFollowUp call' followUp) := by
  cases followUp with
  | report n field watcher =>
    refine C.bind (C.inert (inert_getInstance n)) fun i => ?_
    split
    · exact C.pure ()
    · exact C.inert (inert_note _)
  | recompute n field =>
    refine C.bind (C.inert (inert_getInstance n)) fun i => ?_
    split
    · exact C.pure ()
    · refine C.bind (C.attempt (h (.recompute n field) trivial)) fun computed => ?_
      split
      · exact C.pure ()
      · exact C.ignore (h (.trigger n field) trivial)

/-- Firing runs everything that is registered for an address. -/
theorem fire (address : String) : R _ (fire call address) (fire call' address) :=
  C.bind (C.inert inert_get) fun _ => C.bind (C.forM (C.runFollowUp h) _) fun _ => C.pure _

/-- Triggering fires for what is cached, or computes first. -/
theorem trigger (n : Nat) (field : String) :
    R _ (trigger call n field) (trigger call' n field) := by
  unfold Session.trigger
  split
  · exact C.throw _
  · refine C.bind (C.inert (inert_getInstance n)) fun i => ?_
    split
    · exact C.bind (h (.fire _) trivial) fun _ => C.pure _
    · exact C.bind (h (.fire _) trivial) fun _ => C.pure _
    · exact C.throw _
    · refine C.bind (h (.compute n field) trivial) fun _ =>
        C.bind (C.inert (inert_getInstance n)) fun i => ?_
      split
      · exact C.bind (h (.fire _) trivial) fun _ => C.pure _
      · exact C.pure ()

/-- A search reads one instance after the other up to the first that has the
value. -/
theorem firstWhere (field : String) (value : Value) (ns : List Nat) :
    R _ (firstWhere call field value ns) (firstWhere call' field value ns) := by
  induction ns with
  | nil => exact C.pure none
  | cons n ns ih =>
    refine C.bind (C.attempt (h (.field n field) trivial)) fun r => ?_
    cases r with
    | error e => exact ih
    | ok v =>
      dsimp only
      split
      · exact C.pure _
      · exact ih

/-- A search over a kind is one over its instances. -/
theorem findWhere (kind field : String) (value : Value) :
    R _ (findWhere call kind field value) (findWhere call' kind field value) := by
  refine C.bind (C.inert inert_get) fun _ => C.bind (C.ofResult _) fun ns =>
    C.bind (C.firstWhere h field value ns) fun found => ?_
  cases found with
  | none => exact C.throw _
  | some n => exact C.bind (C.inert inert_get) fun _ => C.pure _

/-- Waking a field registers, computes and fires it, if somebody waits for it. -/
theorem wake (n : Nat) (field : String) : R _ (wake call n field) (wake call' n field) := by
  unfold Session.wake
  refine C.bind (C.inert (inert_getInstance n)) fun i => C.bind (C.inert inert_get) fun s => ?_
  split
  · refine C.bind (C.ignore (C.bind (h (.register n field) trivial) fun _ =>
      h (.compute n field) trivial)) fun _ => C.bind (C.inert (inert_getInstance n)) fun i => ?_
    split
    · exact C.bind (h (.fire _) trivial) fun _ => C.pure _
    · exact C.pure ()
  · exact C.pure ()

/-- **Operations that change no more than caches** are related when the
operations within them are. -/
theorem step (hlogic : ∀ n info field values,
      R _ (Session.runLogic call n info field values) (Session.runLogic call' n info field values))
    {op : Operation} (hop : ¬ op.Reshapes) : R _ (step call op) (step call' op) := by
  cases op with
  | live n => exact C.inert (inert_requireLive n)
  | compute n field => exact C.computeField h hlogic n field false
  | recompute n field => exact C.computeField h hlogic n field true
  | field n field => exact C.readField h n field
  | resolve n field => exact C.resolveField h n field
  | trigger n field => exact C.trigger h n field
  | fire address => exact C.fire h address
  | find kind id => exact C.inert (inert_lookup kind id)
  | findWhere kind field value => exact C.findWhere h kind field value
  | list kind => exact C.inert (inert_listKind kind)
  | expire age => exact C.inert (inert_expire age)
  | resolveAll ns field failFast => exact C.resolveAll h ns field failFast
  | await n field retries => exact C.retryField h n field retries
  | store n field data => exact C.inert (inert_store n field data)
  | register | create | watch | watchCompute | unregister => exact absurd trivial hop

end Performers

end Congruence

end LazyFields
