/-
  LazyFields.Proofs.Session.Environment
  ────────────────────────────────
  **WHAT NO OPERATION CHANGES.**

  The configuration of a session comes from its host, and with it the engine for
  regular expressions.  Logic may ask for anything while it runs, but it cannot
  touch the configuration, so what one operation is checked with the next one is
  checked with as well.

    · `Action.KeepsConfig`  — whatever the action answers, the configuration is as
      before; it is a congruence
    · `keepsConfig_perform` — all operations keep it

  An action that changes caches at most keeps it since it keeps the outline.  So
  only what watches fields or constructs instances is looked at here.
-/
import LazyFields.Proofs.Session.Calls
import LazyFields.Proofs.Session.History

namespace LazyFields

open LazyFields.Action (Inert)

/-! ## §1. Actions that keep the configuration. -/

namespace Action

variable {α β : Type} {a : Action α} {f : α → Action β}

/-- Whatever the action answers, the configuration of the session is as before. -/
def KeepsConfig (a : Action α) : Prop := ∀ s : Session, a.Returns s fun _ t => t.config = s.config

namespace KeepsConfig

/-- An action that changes caches at most. -/
theorem inert (h : Inert a) : KeepsConfig a :=
  fun s r t hrun => congrArg Outline.config (h s r t hrun).1

/-- A second part may start from whatever the first one left. -/
theorem bind (h : KeepsConfig a) (k : ∀ x, KeepsConfig (f x)) : KeepsConfig (a >>= f) := by
  intro s
  refine (h s).bind (fun x t ht => ?_) fun e t ht => ht
  exact (k x t).mono fun r u hu => hu.trans ht

/-- Attempting an action keeps the configuration if the action does. -/
theorem attempt (h : KeepsConfig a) : KeepsConfig (Action.attempt a) := fun s => (h s).attempt

/-- So does ignoring its error. -/
theorem ignore (h : KeepsConfig a) : KeepsConfig (Action.ignore a) :=
  bind (attempt h) fun _ => inert (.pure ())

/-- So does performing such actions one after another. -/
theorem forM {f : α → Action PUnit} (h : ∀ x, KeepsConfig (f x)) (xs : List α) :
    KeepsConfig (xs.forM f) := by
  induction xs with
  | nil => exact inert (.pure ())
  | cons x xs ih => exact bind (h x) fun _ => ih

/-- **Keeping the configuration goes through actions.**  Two actions are related
if both keep it. -/
theorem congruence : Congruence fun _ a b => KeepsConfig a ∧ KeepsConfig b where
  inert h := ⟨inert h, inert h⟩
  bind h k := ⟨h.1.bind fun x => (k x).1, h.2.bind fun x => (k x).2⟩
  attempt h := ⟨h.1.attempt, h.2.attempt⟩

/-- Looking at the session, and going on from there. -/
theorem get_bind {f : Session → Action β}
    (h : ∀ s, (f s).Returns s fun _ t => t.config = s.config) :
    KeepsConfig ((MonadState.get : Action Session) >>= f) :=
  fun s => .next Session.runOn_get (h s)

end KeepsConfig

end Action

open LazyFields.Action (KeepsConfig)

namespace Session

/-! ## §2. Watching fields. -/

/-- A change of the session that keeps the configuration. -/
theorem keepsConfig_modify {g : Session → Session} (h : ∀ s, (g s).config = s.config) :
    KeepsConfig (modify g : Action PUnit) :=
  fun s => .of_runOn (runOn_modify g) (h s)

variable {call : Performer} (h : ∀ op, KeepsConfig (call op))

include h

/-- To follow a target enters a watch, and perhaps registers and computes it. -/
theorem keepsConfig_follow (target : Target) (n : Nat) (field : String) :
    KeepsConfig (follow call target n field) := by
  unfold follow
  refine .bind (.inert (inert_getInstance n)) fun i => .get_bind fun s => .next (runOn_set _) ?_
  -- the watch is entered, and the session has the configuration it had
  split
  · exact KeepsConfig.inert (.pure ()) _
  · split
    · exact KeepsConfig.inert (.pure ()) _
    · exact KeepsConfig.bind (h _) (fun _ => (h _).ignore) _

/-- A field follows its references one by one. -/
theorem keepsConfig_register (n : Nat) (field : String) : KeepsConfig (register call n field) := by
  unfold register
  refine .bind (.inert (inert_declared n field)) fun info => ?_
  split
  · exact .inert (.pure ())
  · refine .bind (.inert (inert_requireLive n)) fun _ => KeepsConfig.forM ?_ _
    exact fun reference =>
      .bind (.inert (inert_targetOf n reference)) fun target => keepsConfig_follow h target n field

/-- To watch a field enters the watch, and perhaps computes and reports the field. -/
theorem keepsConfig_watchField (n : Nat) (field watcher : String) :
    KeepsConfig (watchField call n field watcher) := by
  unfold watchField
  refine .bind (.inert (inert_declared n field)) fun _ =>
    .bind (.inert (inert_getInstance n)) fun i => .get_bind fun s => .next (runOn_set _) ?_
  split
  · exact KeepsConfig.inert (.pure ()) _
  · split
    · refine KeepsConfig.bind (h _) (fun _ => .bind (.attempt (h _)) fun computed => ?_) _
      split
      · exact .inert (.pure ())
      · exact (KeepsConfig.congruence.runFollowUp (fun op _ => ⟨h op, h op⟩) _).1
    · refine KeepsConfig.bind (.inert (inert_cached? n field)) (fun cached => ?_) _
      split
      · exact .inert (inert_note _)
      · exact .inert (.pure ())

/-! ## §3. Constructing instances. -/

/-- Preparing the arguments keeps the configuration, if the operations within do. -/
theorem keepsConfig_prepare (k : Kind) (args : Args) : KeepsConfig (prepare call k args) :=
  (KeepsConfig.congruence.prepare (fun op => ⟨h op, h op⟩) k args).1

/-- Choosing the id keeps the configuration, if the operations within do. -/
theorem keepsConfig_chooseId (k : Kind) (n : Nat) (forced : Option String) :
    KeepsConfig (chooseId call k n forced) :=
  (KeepsConfig.congruence.chooseId (fun op => ⟨h op, h op⟩) k n forced).1

/-- A new instance is discarded, or published and woken. -/
theorem keepsConfig_publish (k : Kind) (n : Nat) (id : String) :
    KeepsConfig (publish call k n id) := by
  unfold publish
  refine .bind (keepsConfig_modify fun _ => rfl) fun _ => .get_bind fun s => ?_
  dsimp only
  split
  · have hdiscard : KeepsConfig (discard n) := keepsConfig_modify fun _ => rfl
    exact hdiscard.bind (fun _ => .inert (.pure _)) s
  · refine .next (runOn_set _) ?_
    have hwakes : KeepsConfig (k.info.fields.keys.forM (wake call n)) :=
      .forM (fun field => (KeepsConfig.congruence.wake (fun op _ => ⟨h op, h op⟩) n field).1) _
    exact hwakes.bind (fun _ => .inert (.pure _)) _

/-- Constructing an instance keeps the configuration, if the operations within
do. -/
theorem keepsConfig_construct (k : Kind) (args : Args) : KeepsConfig (construct call k args) := by
  unfold construct
  refine .bind (.inert (.ofResult _)) fun taken => .bind (.inert inert_get) fun s =>
    .bind (.inert (.ofResult _)) fun cache => .bind ?_ fun n => ?_
  · exact .get_bind fun s => .next (runOn_set _) (.of_runOn rfl rfl)
  · refine .bind (.attempt (keepsConfig_chooseId h k n taken.1)) fun chosen => ?_
    cases chosen with
    | ok id => exact keepsConfig_publish h k n id
    | error e => exact .bind (keepsConfig_modify fun _ => rfl) fun _ => .inert (.throw e)

/-- Creating an instance keeps the configuration, if the operations within do. -/
theorem keepsConfig_create (kind : String) (args : Args) : KeepsConfig (create call kind args) := by
  unfold create
  refine .bind (.inert inert_get) fun s => .bind (.inert (.ofResult _)) fun k =>
    .bind (keepsConfig_prepare h k args) fun prepared => ?_
  cases prepared with
  | existing r => exact .inert (.pure r)
  | proceed args => exact keepsConfig_construct h k args

/-! ## §4. Operations. -/

/-- Every operation keeps the configuration, if the operations within do. -/
theorem keepsConfig_step (op : Operation) : KeepsConfig (step call op) := by
  have C := KeepsConfig.congruence
  have hboth : ∀ op, KeepsConfig (call op) ∧ KeepsConfig (call op) := fun op => ⟨h op, h op⟩
  cases op with
  | register n field => exact keepsConfig_register h n field
  | create kind args => exact keepsConfig_create h kind args
  | watch n field watcher => exact keepsConfig_watchField h n field watcher
  | watchCompute n field follower followerField =>
    exact .bind (.inert (inert_getInstance n)) fun i => keepsConfig_follow h _ follower followerField
  | unregister watcher => exact keepsConfig_modify fun _ => rfl
  | _ => exact (C.step (fun op _ => hboth op) (C.runLogic hboth) id).1

omit h

/-- **No operation changes the configuration.** -/
theorem keepsConfig_perform (fuel : Nat) (op : Operation) : KeepsConfig (perform fuel op) := by
  induction fuel generalizing op with
  | zero => exact .inert .stuck
  | succ fuel ih => exact keepsConfig_step ih op

end Session

end LazyFields
