/-
  LazyFields.Session.Depth
  ────────────────────────────────
  **HOW DEEP OPERATIONS NEST.**

  `perform` stops operations that nest too deep.  This file shows that the
  depth it is given decides only WHETHER there is an answer, never which:

    · `Action.Refines a b` — wherever the action `a` has an answer, `b` has
      the same one and leaves the same session
    · `step_refines` — an operation refines itself when the operations within
      it are performed by a performer that answers more often
    · `perform_refines`, `run_mono` — an answer stays the same with more fuel
    · `run_unique` — two answers to one operation are the same
-/
import LazyFields.Session.Perform

namespace LazyFields

/-! ## §1. Actions that answer more often. -/

/-- Wherever `a` has an answer, `b` has it too. -/
def Action.Refines {α : Type} (a b : Action α) : Prop :=
  ∀ s r, a.runOn s = some r → b.runOn s = some r

/-- Whatever the first performer answers, the second one answers too. -/
def Performer.Refines (call call' : Performer) : Prop := ∀ op, (call op).Refines (call' op)

namespace Action.Refines

variable {α β : Type}

theorem rfl {a : Action α} : a.Refines a := fun _ _ h => h

theorem trans {a b c : Action α} (h : a.Refines b) (k : b.Refines c) : a.Refines c :=
  fun s r e => k s r (h s r e)

/-- What has no answer is refined by anything. -/
theorem stuck (a : Action α) : (Action.stuck : Action α).Refines a := by
  intro s r h
  simp at h

/-- Two actions one after the other. -/
theorem bind {a b : Action α} {f g : α → Action β} (h : a.Refines b)
    (k : ∀ x, (f x).Refines (g x)) : (a >>= f).Refines (b >>= g) := by
  intro s r e
  rw [runOn_bind] at e ⊢
  cases ha : a.runOn s with
  | none => simp [ha] at e
  | some p =>
    rw [h s p ha]
    rw [ha] at e
    obtain ⟨x | x, t⟩ := p
    · exact e
    · exact k x t r e

/-- An attempt is refined where the action is. -/
theorem attempt {a b : Action α} (h : a.Refines b) :
    (Action.attempt a).Refines (Action.attempt b) := by
  intro s r e
  rw [runOn_attempt] at e ⊢
  obtain ⟨p, hp, hr⟩ := Option.map_eq_some_iff.1 e
  rw [h s p hp, Option.map_some, hr]

theorem ignore {a b : Action α} (h : a.Refines b) :
    (Action.ignore a).Refines (Action.ignore b) :=
  bind (attempt h) fun _ => rfl

/-- An action for every member of a list. -/
theorem forM {f g : α → Action Unit} (h : ∀ x, (f x).Refines (g x)) :
    ∀ xs : List α, (xs.forM f).Refines (xs.forM g)
  | [] => rfl
  | x :: xs => bind (h x) fun _ => forM h xs

/-- An action for every member of a list, whose answers are collected. -/
theorem mapM {f g : α → Action β} (h : ∀ x, (f x).Refines (g x)) (xs : List α) :
    (xs.mapM f).Refines (xs.mapM g) := by
  induction xs with
  | nil => exact rfl
  | cons x xs ih =>
    simp only [List.mapM_cons]
    exact bind (h x) fun _ => bind ih fun _ => rfl

end Action.Refines

open LazyFields.Action (Refines)

/-- A program asks operations only. -/
theorem Program.run_refines {α : Type} {call call' : Performer} (h : call.Refines call')
    (p : Program α) : (p.run call).Refines (p.run call') := by
  induction p with
  | done r => exact .rfl
  | ask op next ih => exact .bind (.attempt (h op)) ih

namespace Session

variable {call call' : Performer}

/-! ## §2. Fields. -/

/-- Following asks for a registration and a computation. -/
theorem follow_refines (h : call.Refines call') (target : Target) (n : Nat) (field : String) :
    (follow call target n field).Refines (follow call' target n field) := by
  unfold follow
  refine .bind .rfl fun i => .bind .rfl fun s => .bind .rfl fun _ => ?_
  split
  · exact .rfl
  · split
    · exact .rfl
    · exact .bind (h _) fun _ => .ignore (h _)

/-- Registering follows its references. -/
theorem register_refines (h : call.Refines call') (n : Nat) (field : String) :
    (register call n field).Refines (register call' n field) := by
  unfold register
  refine .bind .rfl fun info => ?_
  split
  · exact .rfl
  · exact .bind .rfl fun _ => .forM (fun _ => .bind .rfl fun _ => follow_refines h _ _ _) _

/-- Gathering asks for computations and readings. -/
theorem gather_refines (h : call.Refines call') (n : Nat) (refs : List String) :
    (gather call n refs).Refines (gather call' n refs) := by
  induction refs with
  | nil => exact .rfl
  | cons reference refs ih =>
    refine .bind .rfl fun target => ?_
    obtain e | ⟨_ | source, field, address⟩ := target
    · exact .rfl
    · exact .rfl
    · refine .bind (.attempt (.bind (h _) fun _ => h _)) fun r => ?_
      split
      · exact .rfl
      · exact .rfl
      · exact .bind ih fun _ => .rfl

/-- Running logic asks what the logic asks. -/
theorem runLogic_refines (h : call.Refines call') (n : Nat) (info : FieldSpec) (field : String)
    (values : List Value) :
    (runLogic call n info field values).Refines (runLogic call' n info field values) := by
  unfold runLogic
  refine .bind .rfl fun i => ?_
  split
  · exact .rfl
  · exact .bind .rfl fun _ => .bind .rfl fun _ =>
      .bind (.attempt (Program.run_refines h _)) fun _ => .rfl

/-- Computing gathers and runs logic. -/
theorem computeField_refines (h : call.Refines call') (n : Nat) (field : String)
    (force : Bool) :
    (computeField call n field force).Refines (computeField call' n field force) := by
  unfold computeField
  refine .bind .rfl fun info => ?_
  split
  · exact .rfl
  · refine .bind .rfl fun claim => ?_
    cases claim with
    | ready e => exact .rfl
    | busy => exact .rfl
    | acquired =>
      refine .bind (gather_refines h _ _) fun gathered => ?_
      cases gathered with
      | values vs => exact runLogic_refines h _ _ _ _
      | blocked e => exact .rfl
      | failed e => exact .rfl

/-- Reading may compute and fire. -/
theorem readField_refines (h : call.Refines call') (n : Nat) (field : String) :
    (readField call n field).Refines (readField call' n field) := by
  unfold readField
  refine .bind .rfl fun info => .bind .rfl fun cached => ?_
  cases cached with
  | some r => exact .rfl
  | none =>
    refine .bind .rfl fun i => ?_
    split
    · exact .rfl
    · split
      · exact .rfl
      · refine .bind (.attempt (h _)) fun computed => ?_
        split
        · exact .rfl
        · refine .bind .rfl fun cached => ?_
          cases cached with
          | none => exact .rfl
          | some r =>
            refine .bind .rfl fun s => ?_
            split
            · exact .bind (h _) fun _ => .rfl
            · exact .rfl

/-- Resolving registers, computes and reads. -/
theorem resolveField_refines (h : call.Refines call') (n : Nat) (field : String) :
    (resolveField call n field).Refines (resolveField call' n field) := by
  unfold resolveField
  refine .bind (h _) fun _ => .bind (.attempt (h _)) fun computed => ?_
  split
  · exact .rfl
  · exact h _

/-- Resolving many asks for each of them. -/
theorem resolveAll_refines (h : call.Refines call') (ns : List Nat) (field : String)
    (failFast : Bool) :
    (resolveAll call ns field failFast).Refines (resolveAll call' ns field failFast) :=
  .bind (.mapM (fun n => .attempt (h (.resolve n field))) ns) fun _ => .rfl

/-- Trying again resolves again. -/
theorem retryField_refines (h : call.Refines call') (n : Nat) (field : String) (retries : Nat) :
    (retryField call n field retries).Refines (retryField call' n field retries) := by
  induction retries with
  | zero => exact h _
  | succ retries ih =>
    refine .bind (.attempt (h _)) fun r => ?_
    split
    · exact ih
    · exact .rfl

/-- A watcher may compute and trigger. -/
theorem runFollowUp_refines (h : call.Refines call') (followUp : FollowUp) :
    (runFollowUp call followUp).Refines (runFollowUp call' followUp) := by
  cases followUp with
  | report n field watcher => exact .rfl
  | recompute n field =>
    refine .bind .rfl fun i => ?_
    split
    · exact .rfl
    · refine .bind (.attempt (h _)) fun computed => ?_
      split
      · exact .rfl
      · exact .ignore (h _)

/-- Firing runs what watchers registered. -/
theorem fire_refines (h : call.Refines call') (address : String) :
    (fire call address).Refines (fire call' address) :=
  .bind .rfl fun _ => .bind (.forM (runFollowUp_refines h) _) fun _ => .rfl

/-- Triggering may compute, and fires. -/
theorem trigger_refines (h : call.Refines call') (n : Nat) (field : String) :
    (trigger call n field).Refines (trigger call' n field) := by
  unfold trigger
  split
  · exact .rfl
  · refine .bind .rfl fun i => ?_
    split
    · exact .bind (h _) fun _ => .rfl
    · exact .bind (h _) fun _ => .rfl
    · exact .rfl
    · refine .bind (h _) fun _ => .bind .rfl fun i => ?_
      split
      · exact .bind (h _) fun _ => .rfl
      · exact .rfl

/-- Watching may register, compute and report. -/
theorem watchField_refines (h : call.Refines call') (n : Nat) (field watcher : String) :
    (watchField call n field watcher).Refines (watchField call' n field watcher) := by
  unfold watchField
  refine .bind .rfl fun _ => .bind .rfl fun i => .bind .rfl fun s => .bind .rfl fun _ => ?_
  split
  · exact .rfl
  · split
    · refine .bind (h _) fun _ => .bind (.attempt (h _)) fun computed => ?_
      split
      · exact .rfl
      · exact runFollowUp_refines h _
    · exact .rfl

/-! ## §3. Instances. -/

/-- What runs before construction asks what its logic asks. -/
theorem prepare_refines (h : call.Refines call') (k : Kind) (args : Args) :
    (prepare call k args).Refines (prepare call' k args) := by
  unfold prepare
  split
  · exact .rfl
  · exact .bind .rfl fun _ => .bind .rfl fun _ => Program.run_refines h _

/-- So does choosing the id. -/
theorem chooseId_refines (h : call.Refines call') (k : Kind) (n : Nat) (forced : Option String) :
    (chooseId call k n forced).Refines (chooseId call' k n forced) := by
  unfold chooseId
  split
  · exact .rfl
  · exact .rfl
  · exact .bind .rfl fun _ => .bind .rfl fun _ => Program.run_refines h _

/-- Waking registers, computes and fires. -/
theorem wake_refines (h : call.Refines call') (n : Nat) (field : String) :
    (wake call n field).Refines (wake call' n field) := by
  unfold wake
  refine .bind .rfl fun i => .bind .rfl fun s => ?_
  split
  · refine .bind (.ignore (.bind (h _) fun _ => h _)) fun _ => .bind .rfl fun i => ?_
    split
    · exact .bind (h _) fun _ => .rfl
    · exact .rfl
  · exact .rfl

/-- Publishing wakes the fields. -/
theorem publish_refines (h : call.Refines call') (k : Kind) (n : Nat) (id : String) :
    (publish call k n id).Refines (publish call' k n id) := by
  unfold publish
  refine .bind .rfl fun _ => .bind .rfl fun s => ?_
  dsimp only
  split
  · exact .rfl
  · exact .bind .rfl fun _ => .bind (.forM (wake_refines h n) _) fun _ => .rfl

/-- Construction chooses the id and publishes. -/
theorem construct_refines (h : call.Refines call') (k : Kind) (args : Args) :
    (construct call k args).Refines (construct call' k args) := by
  unfold construct
  refine .bind .rfl fun taken => .bind .rfl fun s => .bind .rfl fun cache =>
    .bind .rfl fun n => .bind (.attempt (chooseId_refines h _ _ _)) fun chosen => ?_
  cases chosen with
  | ok id => exact publish_refines h _ _ _
  | error e => exact .rfl

/-- Creating an instance prepares and constructs it. -/
theorem create_refines (h : call.Refines call') (kind : String) (args : Args) :
    (create call kind args).Refines (create call' kind args) := by
  unfold create
  refine .bind .rfl fun s => .bind .rfl fun k => .bind (prepare_refines h _ _) fun prepared => ?_
  cases prepared with
  | existing r => exact .rfl
  | proceed args => exact construct_refines h _ _

/-- A search asks for readings. -/
theorem firstWhere_refines (h : call.Refines call') (field : String) (value : Value)
    (ns : List Nat) :
    (firstWhere call field value ns).Refines (firstWhere call' field value ns) := by
  induction ns with
  | nil => exact .rfl
  | cons n ns ih =>
    refine .bind (.attempt (h _)) fun r => ?_
    cases r with
    | error e => exact ih
    | ok v =>
      dsimp only
      split
      · exact .rfl
      · exact ih

/-- So does a search over a kind. -/
theorem findWhere_refines (h : call.Refines call') (kind field : String) (value : Value) :
    (findWhere call kind field value).Refines (findWhere call' kind field value) :=
  .bind .rfl fun _ => .bind .rfl fun _ => .bind (firstWhere_refines h _ _ _) fun _ => .rfl

/-! ## §4. Operations. -/

/-- **An operation answers more often when those within it do.** -/
theorem step_refines (h : call.Refines call') : Performer.Refines (step call) (step call') := by
  intro op
  cases op with
  | live n => exact .rfl
  | register n field => exact register_refines h _ _
  | compute n field => exact computeField_refines h _ _ _
  | recompute n field => exact computeField_refines h _ _ _
  | field n field => exact readField_refines h _ _
  | resolve n field => exact resolveField_refines h _ _
  | trigger n field => exact trigger_refines h _ _
  | fire address => exact fire_refines h _
  | create kind args => exact create_refines h _ _
  | find kind id => exact .rfl
  | findWhere kind field value => exact findWhere_refines h _ _ _
  | list kind => exact .rfl
  | watch n field watcher => exact watchField_refines h _ _ _
  | watchCompute n field follower followerField =>
    exact .bind .rfl fun _ => follow_refines h _ _ _
  | unregister watcher => exact .rfl
  | expire age => exact .rfl
  | resolveAll ns field failFast => exact resolveAll_refines h _ _ _
  | await n field retries => exact retryField_refines h _ _ _
  | store n field data => exact .rfl

/-- One level more refines. -/
theorem perform_refines_succ (fuel : Nat) :
    Performer.Refines (perform fuel) (perform (fuel + 1)) := by
  induction fuel with
  | zero => exact fun _ => .stuck _
  | succ fuel ih => exact step_refines ih

/-- **What is answered stays answered at any greater depth.** -/
theorem perform_refines {fuel fuel' : Nat} (h : fuel ≤ fuel') :
    Performer.Refines (perform fuel) (perform fuel') := by
  induction h with
  | refl => exact fun _ => .rfl
  | step _ ih => exact fun op => (ih op).trans (perform_refines_succ _ op)

/-- **More depth changes no answer.** -/
theorem run_mono {fuel fuel' : Nat} (h : fuel ≤ fuel') {op : Operation} {s : Session}
    {r : Except Error op.Answer × Session} (hr : run fuel op s = some r) :
    run fuel' op s = some r :=
  perform_refines h op s r hr

/-- **An operation has one answer, whatever fuel found it.** -/
theorem run_unique {fuel fuel' : Nat} {op : Operation} {s : Session}
    {r r' : Except Error op.Answer × Session} (h : run fuel op s = some r)
    (h' : run fuel' op s = some r') : r = r' := by
  have hr := run_mono (Nat.le_max_left fuel fuel') h
  have hr' := run_mono (Nat.le_max_right fuel fuel') h'
  exact Option.some.inj (hr.symm.trans hr')

end Session

end LazyFields
