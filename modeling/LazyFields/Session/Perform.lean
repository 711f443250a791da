/-
  LazyFields.Session.Perform
  ────────────────────────────────
  **PERFORMING OPERATIONS.**

  Operations need each other: computing reads, reading triggers, triggering
  computes.  `step` says what each does, given how to perform the ones it
  needs; `perform` ties the knot, for operations that nest less than `fuel`
  deep.  Too little fuel gives no answer, never another one.
-/
import LazyFields.Session.Fields
import LazyFields.Session.Instances

namespace LazyFields.Session

open LazyFields.Action

/-- What an operation does. -/
def step (call : Performer) : Performer
  | .live n => requireLive n
  | .register n field => register call n field
  | .compute n field => computeField call n field false
  | .recompute n field => computeField call n field true
  | .field n field => readField call n field
  | .resolve n field => resolveField call n field
  | .trigger n field => trigger call n field
  | .fire address => fire call address
  | .create kind args => create call kind args
  | .find kind id => lookup kind id
  | .findWhere kind field value => findWhere call kind field value
  | .list kind => listKind kind
  | .watch n field watcher => watchField call n field watcher
  | .watchCompute n field follower followerField =>
      watchCompute call n field follower followerField
  | .unregister watcher => modify fun s => { s with watches := s.watches.unwatch watcher }
  | .expire age => expire age
  | .resolveAll ns field failFast => resolveAll call ns field failFast
  | .await n field retries => retryField call n field retries
  | .store n field data => do storeEntry n field (Entry.ofValue data (← get).now)

/-- Perform an operation that nests less than `fuel` deep. -/
def perform : Nat → Performer
  | 0 => fun _ => stuck
  | fuel + 1 => fun op => step (perform fuel) op

/-- The answer of a session to an operation, and the session afterwards. -/
def run (fuel : Nat) (op : Operation) (s : Session) : Option (Except Error op.Answer × Session) :=
  (perform fuel op).runOn s

end LazyFields.Session
