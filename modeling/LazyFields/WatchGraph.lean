/-
  LazyFields.WatchGraph
  ────────────────────────────────
  **THE WATCH GRAPH.**

  A field maps to those who watch it, each with a callback; a watcher maps to
  the fields it watches.  The two tables are inverse to each other, and
  neither keeps an empty entry.  Triggering a field runs the callbacks that
  were registered when it started, by name of the watcher.

  What a callback may do to the graph itself is a `Reaction`: watch, stop
  watching, trigger again.  `WatchGraph.react` runs one, and records every
  callback that is run on the way.
-/
import LazyFields.Table

namespace LazyFields

/-! ## §1. The graph. -/

/-- The name of a field of an instance in the watch graph. -/
def fieldAddress (kind id field : String) : String := kind ++ "\x00" ++ id ++ "\x00" ++ field

/-- Who watches what, with callbacks of type `κ`. -/
structure WatchGraph (κ : Type) where
  /-- The watchers of each field, with their callbacks. -/
  watchers : Table (Table κ)
  /-- The fields that each watcher watches. -/
  watching : Table NameSet

/-- What watching answers. -/
structure Watched where
  /-- Nobody watched the field before. -/
  isInitial : Bool
  /-- This watcher watched it already; its callback is kept. -/
  already : Bool
  deriving DecidableEq, Repr

namespace WatchGraph

variable {κ : Type}

/-- Nobody watches anything. -/
def empty : WatchGraph κ := ⟨∅, ∅⟩

instance : EmptyCollection (WatchGraph κ) := ⟨empty⟩
instance : Inhabited (WatchGraph κ) := ⟨empty⟩

/-- The watchers of a field with their callbacks. -/
def callbacks (g : WatchGraph κ) (field : String) : Table κ := (g.watchers.get? field).getD ∅

/-- The fields of a watcher. -/
def fieldsOf (g : WatchGraph κ) (watcher : String) : NameSet :=
  (g.watching.get? watcher).getD ∅

/-- Watch a field. -/
def watch (g : WatchGraph κ) (field watcher : String) (callback : κ) : Watched × WatchGraph κ :=
  let callbacks := g.callbacks field
  let already := callbacks.contains watcher
  (⟨callbacks.isEmpty, already⟩,
    { watchers := g.watchers.insert field
        (if already then callbacks else callbacks.insert watcher callback)
      watching := g.watching.insert watcher ((g.fieldsOf watcher).insert field ()) })

/-- Forget that a watcher watches a field. -/
def unlink (watchers : Table (Table κ)) (watcher field : String) : Table (Table κ) :=
  match watchers.get? field with
  | none => watchers
  | some callbacks =>
      let rest := callbacks.erase watcher
      if rest.isEmpty then watchers.erase field else watchers.insert field rest

/-- Stop watching all fields of a watcher. -/
def unwatch (g : WatchGraph κ) (watcher : String) : WatchGraph κ :=
  { watchers := (g.fieldsOf watcher).keys.foldl (fun w field => unlink w watcher field) g.watchers
    watching := g.watching.erase watcher }

/-- The watchers of a field, by name. -/
def watcherNames (g : WatchGraph κ) (field : String) : List String := (g.callbacks field).keys

/-- Whether anybody watches a field. -/
def hasWatchers (g : WatchGraph κ) (field : String) : Bool := !(g.callbacks field).isEmpty

/-- How many fields are watched and how many watchers there are. -/
def summary (g : WatchGraph κ) : String :=
  "Observers \x7b fields: " ++ toString g.watchers.size ++ ", watchers: "
    ++ toString g.watching.size ++ " \x7d"

end WatchGraph

/-! ## §2. Reactions. -/

/-- What a callback does to the watch graph, each step with the answer of the
one before. -/
inductive Reaction where
  | done
  | watch (field watcher : String) (callback : Reaction) (next : Watched → Reaction)
  | unwatch (watcher : String) (next : Reaction)
  | trigger (field : String) (next : Nat → Reaction)
  deriving Inhabited

namespace WatchGraph

/-- The graph and the callbacks that were run, as fields and watchers, the
latest first. -/
structure Trace where
  graph : WatchGraph Reaction
  log : List (String × String)

/-- Record that the callback of a watcher is run. -/
def Trace.note (t : Trace) (field watcher : String) : Trace :=
  { t with log := (field, watcher) :: t.log }

/-- Run the callbacks that watch a field now, by name of the watcher, and
count them. -/
def triggerWith (run : Reaction → Trace → Option Trace) (field : String) (t : Trace) :
    Option (Nat × Trace) :=
  let snapshot := (t.graph.callbacks field).entries
  (snapshot.foldlM (fun t e => run e.2 (t.note field e.1)) t).map fun t => (snapshot.length, t)

/-- Run a reaction, given how to trigger. -/
def reactWith (trigger : String → Trace → Option (Nat × Trace)) :
    Reaction → Trace → Option Trace
  | .done, t => some t
  | .watch field watcher callback next, t =>
      let (answer, graph) := t.graph.watch field watcher callback
      reactWith trigger (next answer) { t with graph }
  | .unwatch watcher next, t =>
      reactWith trigger next { t with graph := t.graph.unwatch watcher }
  | .trigger field next, t =>
      match trigger field t with
      | none => none
      | some (n, t) => reactWith trigger (next n) t

/-- Run a reaction in which triggers nest less than `fuel` deep. -/
def react : Nat → Reaction → Trace → Option Trace
  | 0 => reactWith fun _ _ => none
  | fuel + 1 => reactWith (triggerWith (react fuel))

/-- Trigger a field whose callbacks trigger less than `fuel` deep. -/
def trigger (fuel : Nat) (field : String) (t : Trace) : Option (Nat × Trace) :=
  triggerWith (react fuel) field t

end WatchGraph

end LazyFields
