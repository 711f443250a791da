/-
  LazyFields.Session.Fields
  ────────────────────────────────
  **COMPUTING, READING AND TRIGGERING FIELDS.**

  A field without a dot refers to a field of the same instance; `r.f` refers
  to the field `f` of the shared instance of `r`, the one with the empty id.

  Computing a field claims it, settles its references from left to right, and
  runs its logic.  While a reference is not ready the field stays as it was;
  a reference that fails, fails the field too, and the failure is stored.
  Triggering a field runs its watchers, among them the fields that depend on
  it, which are computed again.
-/
import LazyFields.Session.Action

namespace LazyFields.Session

open LazyFields.Action

/-! ## §1. References. -/

/-- Where a reference points. -/
structure Target where
  /-- The instance, if it is there. -/
  inst : Option Nat
  field : String
  /-- The name in the watch graph, which does not need the instance. -/
  address : String
  deriving DecidableEq, Repr

/-- Where a reference of an instance points. -/
def targetOf (n : Nat) (reference : String) : Action Target := do
  match splitReference reference with
  | (none, field) => do
      let i ← getInstance n
      pure ⟨some n, field, i.fieldAddress field⟩
  | (some kind, field) => do
      requireLive n
      let s ← get
      let k ← ofResult (s.catalog.get kind)
      pure ⟨(s.find k.name "").toOption, field, fieldAddress k.name "" field⟩

/-! ## §2. Watching dependencies. -/

/-- Compute a field again whenever its target is triggered.  The first one to
watch a target also registers and computes it. -/
def follow (call : Performer) (target : Target) (n : Nat) (field : String) :
    Action Unit := do
  let i ← getInstance n
  let s ← get
  let (watched, watches) :=
    s.watches.watch target.address (i.fieldAddress field) (.recompute n field)
  set { s with watches }
  if watched.already || !watched.isInitial then pure ()
  else match target.inst with
    | none => pure ()
    | some source => do
        call (.register source target.field)
        ignore (call (.compute source target.field))

/-- Watch all dependencies of a field. -/
def register (call : Performer) (n : Nat) (field : String) : Action Unit := do
  let info ← declared n field
  if info.refs.isEmpty then pure ()
  else do
    requireLive n
    info.refs.forM fun reference => do
      let target ← targetOf n reference
      follow call target n field

/-! ## §3. Computing. -/

/-- What comes of settling the references of a field. -/
inductive Gathered where
  /-- Their values, in order. -/
  | values (vs : List Value)
  /-- One is not ready or cannot be looked up: the field stays as it was. -/
  | blocked (e : Error)
  /-- One has failed: the field fails as well. -/
  | failed (e : Error)

/-- Settle references from left to right, up to the first without a value. -/
def gather (call : Performer) (n : Nat) : List String → Action Gathered
  | [] => pure (.values [])
  | reference :: refs => do
      match ← attempt (targetOf n reference) with
      | .error e => pure (.blocked e)
      | .ok ⟨none, _, _⟩ => pure (.blocked .notReady)
      | .ok ⟨some source, field, _⟩ =>
          match ← attempt (do call (.compute source field); call (.field source field)) with
          | .error .notReady => pure (.blocked .notReady)
          | .error e => pure (.failed e)
          | .ok v =>
              match ← gather call n refs with
              | .values vs => pure (.values (v :: vs))
              | other => pure other

/-- Give up the claim of a field. -/
def abandon (n : Nat) (field : String) (e : Error) : Action Unit := do
  releaseField n field
  throw e

/-- Store what a computation ended with.  A signal is not stored. -/
def conclude (n : Nat) (field : String) (result : Except Error Value) : Action Unit := do
  let now := (← get).now
  match result with
  | .ok v => storeEntry n field (Entry.ofValue v now)
  | .error .notReady => abandon n field .notReady
  | .error e => do
      storeEntry n field (Entry.ofError e now)
      throw e

/-- A computed value, if the field may hold it. -/
def checkResult (kind field : String) (type : FieldType) (v : Value) : Except Error Value :=
  if v.matchesType type then .ok v else .error (.cast kind field type.text v.typeName)

/-- Run the logic of a claimed field. -/
def runLogic (call : Performer) (n : Nat) (info : FieldSpec) (field : String)
    (values : List Value) : Action Unit := do
  let i ← getInstance n
  match i.kind.compute? field with
  | none => conclude n field (.error (.notImplemented i.kind.name field))
  | some logic => do
      note (.computed i.kind.name i.id field values)
      let number := (← get).computeCalls i.kind.name field
      let result ← attempt ((logic ⟨n, i.kind.name, i.id⟩ values number).run call)
      conclude n field (result.bind (checkResult i.kind.name field info.type))

/-- Settle a field, or compute it again if forced. -/
def computeField (call : Performer) (n : Nat) (field : String) (force : Bool) :
    Action Unit := do
  let info ← declared n field
  if info.isStatic then pure ()
  else match ← onCache n (·.claim field force) with
    | .ready _ => pure ()
    | .busy => throw .notReady
    | .acquired => do
        match ← gather call n info.refs with
        | .values vs => runLogic call n info field vs
        | .blocked e => abandon n field e
        | .failed e => conclude n field (.error e)

/-! ## §4. Reading. -/

/-- The result of a field in the cache. -/
def cached? (n : Nat) (field : String) : Action (Option (Except Error Value)) := do
  let i ← getInstance n
  pure (i.cache.result? field)

/-- Read a field.  What is settled is answered.  A field without references
is computed now, and its watchers run; any other is not ready. -/
def readField (call : Performer) (n : Nat) (field : String) : Action Value := do
  let info ← declared n field
  match ← cached? n field with
  | some r => ofResult r
  | none => do
      let i ← getInstance n
      if info.isStatic then throw (.missingStaticValue i.kind.name field)
      else if !info.refs.isEmpty then throw .notReady
      else match ← attempt (call (.compute n field)) with
        | .error .notReady => throw .notReady
        | _ =>
          match ← cached? n field with
          | none => throw .notReady
          | some r => do
              if (← get).live then do
                let _ ← call (.fire (i.fieldAddress field))
                ofResult r
              else ofResult r

/-- Register, compute and read a field. -/
def resolveField (call : Performer) (n : Nat) (field : String) : Action Value := do
  call (.register n field)
  match ← attempt (call (.compute n field)) with
  | .error .notReady => throw .notReady
  | _ => call (.field n field)

/-- Resolve one field of many instances, in their order. -/
def resolveAll (call : Performer) (ns : List Nat) (field : String) (failFast : Bool) :
    Action (List (Except Error Value)) := do
  let results ← ns.mapM fun n => attempt (call (.resolve n field))
  let failure := results.findSome? fun
    | .error .notReady => none
    | .error e => some e
    | .ok _ => none
  match failFast, failure with
  | true, some e => throw e
  | _, _ => pure results

/-- Resolve a field, and try again while it is not ready. -/
def retryField (call : Performer) (n : Nat) (field : String) : Nat → Action Value
  | 0 => call (.resolve n field)
  | retries + 1 => do
      match ← attempt (call (.resolve n field)) with
      | .error .notReady => retryField call n field retries
      | r => ofResult r

/-! ## §5. Triggering. -/

/-- Run what a watcher registered. -/
def runFollowUp (call : Performer) : FollowUp → Action Unit
  | .recompute n field => do
      let i ← getInstance n
      if i.discarded then pure ()
      else match ← attempt (call (.recompute n field)) with
        | .error .notReady => pure ()
        | _ => ignore (call (.trigger n field))
  | .report n field watcher => do
      let i ← getInstance n
      if i.discarded then pure ()
      else
        let result := (i.cache.result? field).getD (.error (.failure
          ("couldn't retrieve value of field \"" ++ field ++ "\" in resource \""
            ++ i.kind.name ++ "\"")))
        note (.reported watcher result)

/-- Run the watchers that a field has now, by name, and count them. -/
def fire (call : Performer) (address : String) : Action Nat := do
  let callbacks := ((← get).watches.callbacks address).values
  callbacks.forM (runFollowUp call)
  pure callbacks.length

/-- Settle a field and run its watchers. -/
def trigger (call : Performer) (n : Nat) (field : String) : Action Unit := do
  if field = "" then
    throw (.failure "cannot trigger a resource without specifying a field")
  else do
    let i ← getInstance n
    match i.cache.status field with
    | .valid | .error => do
        let _ ← call (.fire (i.fieldAddress field))
    | .computing => throw .notReady
    | .unset => do
        call (.compute n field)
        let i ← getInstance n
        if (i.cache.get? field).isSome then do
          let _ ← call (.fire (i.fieldAddress field))
        else pure ()

/-! ## §6. Watching. -/

/-- Report a field to a watcher: now, if it is settled, and whenever it is
triggered.  The first watcher of a field makes the field follow its
dependencies and computes it. -/
def watchField (call : Performer) (n : Nat) (field watcher : String) : Action Unit := do
  let _ ← declared n field
  let i ← getInstance n
  let s ← get
  let callback := FollowUp.report n field watcher
  let (watched, watches) := s.watches.watch (i.fieldAddress field) watcher callback
  set { s with watches }
  if watched.already then pure ()
  else if watched.isInitial then do
    call (.register n field)
    match ← attempt (call (.compute n field)) with
    | .error .notReady => pure ()
    | _ => runFollowUp call callback
  else match ← cached? n field with
    | some r => note (.reported watcher r)
    | none => pure ()

/-- Compute a second field again whenever the first one is triggered. -/
def watchCompute (call : Performer) (n : Nat) (field : String) (follower : Nat)
    (followerField : String) : Action Unit := do
  let i ← getInstance n
  follow call ⟨some n, field, i.fieldAddress field⟩ follower followerField

end LazyFields.Session
