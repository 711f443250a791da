/-
  LazyFields.Session.Instances
  ────────────────────────────────
  **CONSTRUCTING AND FINDING INSTANCES.**

  A new instance is published under its kind and id only once its arguments
  are checked and its id is known.  If one is published there already, that
  one is the answer and the new one is discarded.  Fields of the new instance
  that somebody watches are computed at once, and their watchers run.
-/
import LazyFields.Session.Action

namespace LazyFields.Session

open LazyFields.Action

/-! ## §1. Construction. -/

/-- What the logic before construction makes of the arguments. -/
def prepare (call : Performer) (k : Kind) (args : Args) : Action Prepared := do
  match k.init with
  | none => pure (.proceed args)
  | some logic => do
      note (.initialized k.name args)
      (logic args ((← get).initCalls k.name)).run call

/-- Number a new instance. -/
def allocate (k : Kind) (cache : Cache) : Action Nat := do
  let s ← get
  set { s with instances := s.instances ++ [Instance.mk k "" cache false] }
  pure s.instances.length

/-- Discard an instance. -/
def discard (n : Nat) : Action Unit :=
  modify (·.modifyInstance n fun i => { i with discarded := true })

/-- The id of a new instance: the forced one, or what the logic says, or
empty. -/
def chooseId (call : Performer) (k : Kind) (n : Nat) (forced : Option String) :
    Action String := do
  match forced, k.idLogic with
  | some id, _ => pure id
  | none, none => pure ""
  | none, some logic => do
      note (.identified k.name)
      (logic ⟨n, k.name, ""⟩ ((← get).idCalls k.name)).run call

/-- Compute a field of a new instance that somebody watches already. -/
def wake (call : Performer) (n : Nat) (field : String) : Action Unit := do
  let i ← getInstance n
  let address := i.fieldAddress field
  if (← get).watches.hasWatchers address then do
    ignore (do call (.register n field); call (.compute n field))
    let i ← getInstance n
    if (i.cache.get? field).isSome then do
      let _ ← call (.fire address)
    else pure ()
  else pure ()

/-- Publish an instance under its kind and id, unless there is one. -/
def publish (call : Performer) (k : Kind) (n : Nat) (id : String) : Action Ref := do
  modify (·.modifyInstance n fun i => { i with id })
  let s ← get
  let address := instanceAddress k.name id
  match s.published.get? address with
  | some other => do
      discard n
      pure (s.ref other)
  | none => do
      set { s with published := s.published.insert address n }
      k.info.fields.keys.forM (wake call n)
      pure ⟨n, k.name, id⟩

/-- Construct an instance from arguments. -/
def construct (call : Performer) (k : Kind) (args : Args) : Action Ref := do
  let (forced, args) ← ofResult (k.takeId args)
  let s ← get
  let cache ← ofResult (k.cacheOf s.config.engine s.now args)
  let n ← allocate k cache
  match ← attempt (chooseId call k n forced) with
  | .ok id => publish call k n id
  | .error e => do
      discard n
      throw e

/-- Construct an instance of a kind, or find the one it would be equal to. -/
def create (call : Performer) (kind : String) (args : Args) : Action Ref := do
  let k ← ofResult ((← get).catalog.get kind)
  match ← prepare call k args with
  | .existing r => pure r
  | .proceed args => construct call k args

/-! ## §2. Finding. -/

/-- The instance of a kind and id. -/
def lookup (kind id : String) : Action Ref := do
  let s ← get
  let n ← ofResult (s.find kind id)
  pure (s.ref n)

/-- All instances of a kind, by id. -/
def listKind (kind : String) : Action (List Ref) := do
  let s ← get
  let ns ← ofResult (s.list kind)
  pure (ns.map s.ref)

/-- The first of some instances whose field reads as the given value. -/
def firstWhere (call : Performer) (field : String) (value : Value) :
    List Nat → Action (Option Nat)
  | [] => pure none
  | n :: ns => do
      match ← attempt (call (.field n field)) with
      | .ok v => if v.same value then pure (some n) else firstWhere call field value ns
      | .error _ => firstWhere call field value ns

/-- The first instance of a kind, by id, whose field reads as the given
value. -/
def findWhere (call : Performer) (kind field : String) (value : Value) : Action Ref := do
  let ns ← ofResult ((← get).list kind)
  match ← firstWhere call field value ns with
  | some n => do pure ((← get).ref n)
  | none => throw (.resourceNotFound kind "")

/-! ## §3. Forgetting. -/

/-- The largest age; a greater one counts as this. -/
def maxAge : Nat := 9223372036854775807

/-- The earliest time. -/
def minTime : Int := -9223372036854775808

/-- The time before which an entry of the given age was stored. -/
def cutoff (now : Int) (age : Nat) : Int := max minTime (now - (min age maxAge : Nat))

/-- The computed fields of an instance that are older than the given time. -/
def isStaleField (i : Instance) (time : Int) (field : String) : Bool :=
  (i.kind.info.field? field).any (!·.isStatic) && (i.cache.slot? field).any (Slot.isStale time)

/-- An instance without its stale computed fields, and how many there were. -/
def expireInstance (time : Int) (i : Instance) : Nat × Instance :=
  let stale := i.cache.stored.filter (isStaleField i time)
  (stale.length, { i with cache := stale.foldl Cache.forget i.cache })

/-- A session after a change of every published instance. -/
def mapPublished (f : Instance → Instance) (s : Session) : Session :=
  s.published.values.foldl (fun s n => s.modifyInstance n f) s

/-- Forget the computed fields of published instances that are older than the
given age, and count them. -/
def expire (age : Nat) : Action Nat := do
  let s ← get
  let time := cutoff s.now age
  set (s.mapPublished fun i => (expireInstance time i).2)
  pure (s.publishedInstances.foldl (fun n e => n + (expireInstance time e.2).1) 0)

end LazyFields.Session
