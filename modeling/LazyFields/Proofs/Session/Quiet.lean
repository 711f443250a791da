/-
  LazyFields.Proofs.Session.Quiet
  ────────────────────────────────
  **OPERATIONS THAT RUN NO CALLBACK.**

  Callbacks are run in two places: when the watchers of a field are run that
  has some, and when a new watcher is given what is there already.
  `performQuietly` performs operations as `perform` does, but has no answer
  where that would happen.  So an answer of it is the answer of the operation
  (`performQuietly_refines`), and says that no callback was run on the way.
-/
import LazyFields.Proofs.Session.Ends

namespace LazyFields

/-- Performing the operation runs callbacks, apart from the operations within it. -/
def Operation.disturbs (s : Session) : Operation → Bool
  | .fire address => s.watches.hasWatchers address
  | .watch .. => true
  | _ => false

namespace Session

open LazyFields.Action

/-- Perform an operation that nests less than `fuel` deep and runs no callback. -/
def performQuietly : Nat → Performer
  | 0 => fun _ => stuck
  | fuel + 1 => fun op => do
      if op.disturbs (← get) then stuck else step (performQuietly fuel) op

variable {s : Session} {op : Operation}

theorem runOn_performQuietly (fuel : Nat) (op : Operation) (s : Session) :
    (performQuietly (fuel + 1) op).runOn s
      = if op.disturbs s then none else (step (performQuietly fuel) op).runOn s := by
  simp only [performQuietly, runOn_bind, runOn_get]
  split <;> rfl

/-- **What is answered without callbacks is the answer.** -/
theorem performQuietly_refines (fuel : Nat) :
    Performer.Refines (performQuietly fuel) (perform fuel) := by
  induction fuel with
  | zero => exact fun _ => .stuck _
  | succ fuel ih =>
    intro op s r h
    rw [runOn_performQuietly] at h
    split at h
    · simp at h
    · exact step_refines ih op s r h

theorem run_of_performQuietly {fuel : Nat} {r : Except Error op.Answer × Session}
    (h : (performQuietly fuel op).runOn s = some r) : s.run fuel op = some r :=
  performQuietly_refines fuel op s r h

end Session

end LazyFields
