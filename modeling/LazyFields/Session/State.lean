/-
  LazyFields.Session.State
  ────────────────────────────────
  **THE STATE OF A SESSION.**

  A session holds the catalog of its kinds, every instance that was ever
  constructed, the table of those that are published under their kind and id,
  the watch graph, and a journal of what logic was called with.

  An instance whose construction fails, or that turns out to be equal to a
  published one, is discarded: it keeps its number, and what watches
  on its behalf does nothing.
-/
import LazyFields.Catalog
import LazyFields.Construction
import LazyFields.WatchGraph

namespace LazyFields

/-! ## §1. Parts. -/

/-- How a session resolves fields, and what its host brings. -/
structure Config where
  /-- How many instances may be resolved at once. -/
  maxParallelism : Nat
  /-- How often a field that is not ready is tried again. -/
  maxRetries : Nat
  /-- Whether the first failure of many is the answer. -/
  failFast : Bool
  /-- The engine that compiles regular expressions. -/
  engine : PatternEngine
  deriving Inhabited

/-- What happens when a watched field is triggered. -/
inductive FollowUp where
  /-- A field that depends on it is computed again. -/
  | recompute (inst : Nat) (field : String)
  /-- Its result is reported to a watcher. -/
  | report (inst : Nat) (field watcher : String)
  deriving DecidableEq, Repr

/-- What a session calls. -/
inductive Event where
  /-- Logic computes a field from the values of its references. -/
  | computed (kind id field : String) (values : List Value)
  /-- Logic runs before construction. -/
  | initialized (kind : String) (args : Args)
  /-- Logic gives an instance its id. -/
  | identified (kind : String)
  /-- A watcher gets a result. -/
  | reported (watcher : String) (result : Except Error Value)

/-- An instance of a kind. -/
structure Instance where
  kind : Kind
  /-- Its id; empty until it has one. -/
  id : String
  cache : Cache
  /-- Its construction came to nothing. -/
  discarded : Bool
  deriving Inhabited

namespace Instance

/-- The name of a field of the instance in the watch graph. -/
def fieldAddress (i : Instance) (field : String) : String :=
  LazyFields.fieldAddress i.kind.name i.id field

/-- The text that shows an instance and what is stored in it. -/
def summary (i : Instance) : String :=
  "Resource \x7b name: " ++ Text.quoted i.kind.name ++ ", id: " ++ Text.quoted i.id
    ++ ", fields: [" ++ ", ".intercalate (i.cache.stored.map Text.quoted) ++ "] \x7d"

/-- The declared fields that are not unset, with their status. -/
def statuses (i : Instance) : List (String × Status) :=
  (i.kind.info.fields.keys.map fun f => (f, i.cache.status f)).filter fun e => e.2 ≠ .unset

end Instance

/-! ## §2. Sessions. -/

/-- A session. -/
structure Session where
  catalog : Catalog
  config : Config
  /-- The time, in milliseconds of Unix time. -/
  now : Int
  /-- Whether the session still runs. -/
  live : Bool
  /-- All instances, by number. -/
  instances : List Instance
  /-- The numbers of the published instances, by kind and id. -/
  published : Table Nat
  watches : WatchGraph FollowUp
  /-- What was called, the latest first. -/
  journal : List Event
  /-- The guards that owners hold by name, each with its instance and field. -/
  guards : Table (Nat × String)

namespace Session

/-- A session in which nothing has happened. -/
def new (catalog : Catalog) (config : Config) (now : Int) : Session :=
  ⟨catalog, config, now, true, [], ∅, ∅, [], ∅⟩

/-- The instance of a number. -/
def instance? (s : Session) (n : Nat) : Option Instance := s.instances[n]?

/-- Change an instance. -/
def modifyInstance (s : Session) (n : Nat) (f : Instance → Instance) : Session :=
  { s with instances := s.instances.modify n f }

/-- Replace the cache of an instance. -/
def setCache (s : Session) (n : Nat) (cache : Cache) : Session :=
  s.modifyInstance n fun i => { i with cache }

/-- An instance as others hold it. -/
def ref (s : Session) (n : Nat) : Ref :=
  match s.instance? n with
  | some i => ⟨n, i.kind.name, i.id⟩
  | none => ⟨n, "", ""⟩

/-- The instance of a kind and id. -/
def find (s : Session) (kind id : String) : Except Error Nat := do
  let k ← s.catalog.get kind
  match s.published.get? (instanceAddress k.name id) with
  | some n => .ok n
  | none => .error (.resourceNotFound kind id)

/-- The published instances, in the order of their kinds and ids. -/
def publishedInstances (s : Session) : List (Nat × Instance) :=
  s.published.values.filterMap fun n => (s.instance? n).map fun i => (n, i)

/-- The instances of a kind, by id. -/
def list (s : Session) (kind : String) : Except Error (List Nat) := do
  let k ← s.catalog.get kind
  .ok ((s.publishedInstances.filter fun e => e.2.kind.name = k.name).map Prod.fst)

/-- How often the logic of a field has been called. -/
def computeCalls (s : Session) (kind field : String) : Nat :=
  s.journal.countP fun
    | .computed k _ f _ => k = kind && f = field
    | _ => false

/-- How often the logic before the construction of a kind has been called. -/
def initCalls (s : Session) (kind : String) : Nat :=
  s.journal.countP fun
    | .initialized k _ => k = kind
    | _ => false

/-- How often the id logic of a kind has been called. -/
def idCalls (s : Session) (kind : String) : Nat :=
  s.journal.countP fun
    | .identified k => k = kind
    | _ => false

/-- Write down what is called. -/
def record (s : Session) (e : Event) : Session := { s with journal := e :: s.journal }

/-- End the session.  Its instances stay, but nobody watches them any more. -/
def finish (s : Session) : Session :=
  { s with live := false, published := ∅, watches := ∅ }

/-- What the published instances hold, kind by kind. -/
def overview (s : Session) : List (Instance × List (String × Status)) :=
  s.catalog.names.flatMap fun kind =>
    match s.list kind with
    | .error _ => []
    | .ok ns => ns.filterMap fun n => (s.instance? n).map fun i => (i, i.statuses)

/-- The text that shows a session of the given name. -/
def summary (s : Session) (name : String) : String :=
  "Runtime \x7b session_id: " ++ name ++ ", kinds: " ++ toString s.catalog.count
    ++ ", instances: " ++ toString s.published.size ++ " \x7d"

/-! ## §3. Guards that owners hold. -/

/-- Give up a guard, if it lives. -/
def dropGuard (s : Session) (guard : String) : Bool × Session :=
  match s.guards.get? guard with
  | none => (false, s)
  | some (n, field) =>
      (true, { s.modifyInstance n (fun i => { i with cache := i.cache.release field }) with
        guards := s.guards.erase guard })

/-- Finish the computation of a guard, if it lives. -/
def finishGuard (s : Session) (guard : String) (e : Entry) : Bool × Session :=
  match s.guards.get? guard with
  | none => (false, s)
  | some (n, field) =>
      (true, { s.modifyInstance n (fun i => { i with cache := i.cache.finish field e }) with
        guards := s.guards.erase guard })

/-- Claim a field of an instance and keep the guard under a name.  A guard
that had the name before is given up, after the claim. -/
def claim (s : Session) (n : Nat) (field guard : String) (force : Bool) : Claim × Session :=
  match s.instance? n with
  | none => (.busy, s)
  | some i =>
    match i.cache.claim field force with
    | (.acquired, cache) =>
        let s := ((s.setCache n cache).dropGuard guard).2
        (.acquired, { s with guards := s.guards.insert guard (n, field) })
    | (answer, cache) => (answer, s.setCache n cache)

end Session

end LazyFields
