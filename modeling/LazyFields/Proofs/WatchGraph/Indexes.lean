/-
  LazyFields.Proofs.WatchGraph.Indexes
  ────────────────────────────────
  **THE TWO TABLES OF A WATCH GRAPH ARE INVERSE.**

  One table lists the watchers of a field, the other the fields of a watcher,
  and each call changes the two one after the other.  Callbacks run in the
  middle of a trigger, and call the graph themselves; so what is shown is shown
  of the graph between any two calls, also of those that a callback makes, and
  also if the callbacks never come to an end.

  A `Stage` is the graph at such a moment, with what is left to be done.  A
  callback may keep something in mind from one run to the next, so a trigger
  may have it act differently each time.

    · `Inverse.watch`, `Inverse.unwatch` — each change keeps the tables inverse
    · `Call.inverse`, `Reaches.inverse` — so does every call, and every run
    · `reaches_of_react` — a run of the graph is a run of stages
    · `indexes_inverse` — and from the two tables being inverse it follows what
      each call answers, and which pairs it adds and takes away
-/
import LazyFields.Proofs.WatchGraph.Callbacks
import Mathlib.Data.List.Forall2
import Mathlib.Logic.Relation

namespace LazyFields.WatchGraph

variable {κ : Type} {g : WatchGraph κ} {field other watcher name : String} {callback : κ}

/-! ## §1. Pairs of a field and a watcher. -/

/-- The watcher is listed under the field. -/
def Lists (g : WatchGraph κ) (field watcher : String) : Prop :=
  ∃ callbacks, g.watchers.get? field = some callbacks ∧ callbacks.contains watcher = true

/-- The field is listed under the watcher. -/
def Follows (g : WatchGraph κ) (watcher field : String) : Prop :=
  ∃ fields, g.watching.get? watcher = some fields ∧ fields.contains field = true

/-- Both tables list the same pairs, and list nothing under a field or a watcher
that has none. -/
structure Inverse (g : WatchGraph κ) : Prop where
  lists_iff : ∀ {field watcher}, g.Lists field watcher ↔ g.Follows watcher field
  watchers : ∀ {field callbacks}, g.watchers.get? field = some callbacks →
    callbacks.isEmpty = false
  watching : ∀ {watcher fields}, g.watching.get? watcher = some fields → fields.isEmpty = false

/-- A watcher is listed under a field if it has a callback there. -/
theorem lists_iff_callbacks :
    g.Lists field watcher ↔ ((g.callbacks field).get? watcher).isSome = true := by
  unfold Lists callbacks
  cases g.watchers.get? field <;> simp [Table.contains]

/-- A watcher follows the fields it is recorded with. -/
theorem follows_iff_fieldsOf :
    g.Follows watcher field ↔ (g.fieldsOf watcher).contains field = true := by
  unfold Follows fieldsOf
  cases g.watching.get? watcher <;> simp [Table.contains]

/-- A watcher that is not listed has no callback. -/
theorem not_lists_iff : ¬ g.Lists field watcher ↔ (g.callbacks field).get? watcher = none := by
  rw [lists_iff_callbacks]
  simp

/-- A field without callbacks has no watcher. -/
theorem isEmpty_callbacks_iff :
    (g.callbacks field).isEmpty = true ↔ ∀ watcher, ¬ g.Lists field watcher := by
  simp only [Table.isEmpty_iff, not_lists_iff]

/-- A table with a key is not empty. -/
theorem isEmpty_eq_false_of_contains {α : Type} {t : Table α} {k : String}
    (h : t.contains k = true) : t.isEmpty = false := by
  by_contra hempty
  have hnone := Table.isEmpty_iff.1 (Bool.not_eq_false _ ▸ hempty) k
  simp [Table.contains, hnone] at h

/-- The empty graph is inverse. -/
theorem inverse_empty : (∅ : WatchGraph κ).Inverse where
  lists_iff {field watcher} := by
    rw [lists_iff_callbacks, follows_iff_fieldsOf]
    rfl
  watchers {field callbacks} h := by
    have hnone : (∅ : WatchGraph κ).watchers.get? field = none := rfl
    simp [hnone] at h
  watching {watcher fields} h := by
    have hnone : (∅ : WatchGraph κ).watching.get? watcher = none := rfl
    simp [hnone] at h

/-! ## §2. Watching. -/

/-- Watching lists the watcher under the field, and changes nothing else. -/
theorem lists_watch :
    (g.watch field watcher callback).2.Lists other name
      ↔ (field = other ∧ watcher = name) ∨ g.Lists other name := by
  rw [lists_iff_callbacks, lists_iff_callbacks, get?_callbacks_watch]
  by_cases h : field = other ∧ watcher = name <;> simp [h]

/-- Watching records the field with the watcher, and changes nothing else. -/
theorem follows_watch :
    (g.watch field watcher callback).2.Follows name other
      ↔ (field = other ∧ watcher = name) ∨ g.Follows name other := by
  rw [follows_iff_fieldsOf, follows_iff_fieldsOf]
  unfold watch fieldsOf Table.contains
  simp only [Table.get?_insert]
  by_cases hw : watcher = name
  · subst hw
    by_cases hf : field = other <;> simp [Table.get?_insert, hf]
  · simp [hw]

/-- **Watching keeps the tables inverse.** -/
theorem Inverse.watch (h : g.Inverse) (field watcher : String) (callback : κ) :
    (g.watch field watcher callback).2.Inverse where
  lists_iff {other name} := by rw [lists_watch, follows_watch, h.lists_iff]
  watchers {other callbacks} hget := by
    simp only [WatchGraph.watch, Table.get?_insert] at hget
    by_cases hf : field = other
    · rw [if_pos hf] at hget
      cases hget
      -- the watcher is among the callbacks, whether it is new or not
      refine isEmpty_eq_false_of_contains (k := watcher) ?_
      split
      · next halready => exact halready
      · simp [Table.contains]
    · rw [if_neg hf] at hget
      exact h.watchers hget
  watching {name fields} hget := by
    simp only [WatchGraph.watch, Table.get?_insert] at hget
    by_cases hw : watcher = name
    · rw [if_pos hw] at hget
      cases hget
      exact isEmpty_eq_false_of_contains (k := field) (by simp [Table.contains])
    · rw [if_neg hw] at hget
      exact h.watching hget

/-- Watching once more changes nothing. -/
theorem Inverse.watch_of_lists (hg : g.Inverse) (h : g.Lists field watcher) :
    (g.watch field watcher callback).2 = g := by
  obtain ⟨fields, hfields, hfield⟩ := hg.lists_iff.1 h
  obtain ⟨callbacks, hcallbacks, hwatcher⟩ := h
  obtain ⟨u, hu⟩ := Option.isSome_iff_exists.1 hfield
  unfold WatchGraph.watch WatchGraph.callbacks fieldsOf
  simp only [hcallbacks, hfields, Option.getD_some, hwatcher, if_true]
  rw [Table.insert_eq_self hcallbacks, Table.insert_eq_self hu, Table.insert_eq_self hfields]

/-! ## §3. To stop watching. -/

/-- The watcher that stops follows nothing; the others follow what they did. -/
theorem follows_unwatch :
    (g.unwatch watcher).Follows name other ↔ watcher ≠ name ∧ g.Follows name other := by
  rw [follows_iff_fieldsOf, follows_iff_fieldsOf]
  unfold unwatch fieldsOf
  rw [Table.get?_erase]
  by_cases hw : watcher = name <;> simp [hw, Table.contains]

/-- **To stop watching takes away the pairs of the watcher, and no other.** -/
theorem Inverse.get?_callbacks_unwatch (h : g.Inverse) :
    ((g.unwatch watcher).callbacks field).get? name
      = if watcher = name then none else (g.callbacks field).get? name := by
  rw [WatchGraph.get?_callbacks_unwatch]
  by_cases hw : watcher = name
  · subst hw
    by_cases hf : field ∈ (g.fieldsOf watcher).keys
    · simp [hf]
    · -- a field that the watcher does not follow does not list it
      have hfollows : ¬ g.Follows watcher field := by
        rw [follows_iff_fieldsOf, Table.contains_iff_mem_keys]
        exact hf
      have hnone := not_lists_iff.1 (mt h.lists_iff.1 hfollows)
      simp [hf, hnone]
  · simp [hw]

/-- A field that nobody watches any more is forgotten. -/
theorem isEmpty_unlink {watchers : Table (Table κ)}
    (h : ∀ {f callbacks}, watchers.get? f = some callbacks → callbacks.isEmpty = false)
    {callbacks : Table κ} (hget : (unlink watchers watcher field).get? other = some callbacks) :
    callbacks.isEmpty = false := by
  unfold unlink at hget
  split at hget
  · exact h hget
  · next old _ =>
    dsimp only at hget
    split at hget
    · rw [Table.get?_erase] at hget
      split at hget
      · simp at hget
      · exact h hget
    · next hrest =>
      rw [Table.get?_insert] at hget
      split at hget
      · cases hget
        exact Bool.eq_false_iff.2 hrest
      · exact h hget

/-- Unlinking leaves no empty table of callbacks behind. -/
theorem isEmpty_foldl_unlink {fields : List String} :
    ∀ {watchers : Table (Table κ)},
      (∀ {f callbacks}, watchers.get? f = some callbacks → callbacks.isEmpty = false) →
      ∀ {f callbacks}, (fields.foldl (fun w f => unlink w watcher f) watchers).get? f
        = some callbacks → callbacks.isEmpty = false := by
  induction fields with
  | nil => exact fun h _ _ hget => h hget
  | cons field fields ih => exact fun h _ _ hget => ih (fun hget => isEmpty_unlink h hget) hget

/-- **To stop watching keeps the tables inverse.** -/
theorem Inverse.unwatch (h : g.Inverse) (watcher : String) : (g.unwatch watcher).Inverse where
  lists_iff {field name} := by
    rw [follows_unwatch, ← h.lists_iff, lists_iff_callbacks, lists_iff_callbacks,
      h.get?_callbacks_unwatch]
    by_cases hw : watcher = name <;> simp [hw]
  watchers := isEmpty_foldl_unlink h.watchers
  watching {name fields} hget := by
    simp only [WatchGraph.unwatch, Table.get?_erase] at hget
    split at hget
    · simp at hget
    · exact h.watching hget

/-! ## §4. Between calls. -/

/-- A moment between two calls: what is left to be done, the next thing first,
and the graph. -/
structure Stage where
  left : List Reaction
  graph : WatchGraph Reaction

/-- One call.  When it is run once, a callback `c` may do what `r` does, if
`acts c r`. -/
inductive Call (acts : Reaction → Reaction → Prop) : Stage → Stage → Prop where
  | done {left : List Reaction} {g : WatchGraph Reaction} :
      Call acts ⟨.done :: left, g⟩ ⟨left, g⟩
  | watch {field watcher : String} {callback : Reaction} {next : Watched → Reaction}
      {left : List Reaction} {g : WatchGraph Reaction} :
      Call acts ⟨.watch field watcher callback next :: left, g⟩
        ⟨next (g.watch field watcher callback).1 :: left, (g.watch field watcher callback).2⟩
  | unwatch {watcher : String} {next : Reaction} {left : List Reaction}
      {g : WatchGraph Reaction} :
      Call acts ⟨.unwatch watcher next :: left, g⟩ ⟨next :: left, g.unwatch watcher⟩
  /-- The callbacks that watch the field now are run before all else. -/
  | trigger {field : String} {next : Nat → Reaction} {left acting : List Reaction}
      {g : WatchGraph Reaction} (h : List.Forall₂ acts (g.callbacks field).values acting) :
      Call acts ⟨.trigger field next :: left, g⟩ ⟨acting ++ next acting.length :: left, g⟩

/-- The second moment comes after the first one, or is the same. -/
def Reaches (acts : Reaction → Reaction → Prop) : Stage → Stage → Prop :=
  Relation.ReflTransGen (Call acts)

variable {acts : Reaction → Reaction → Prop} {c d : Stage}

/-- A call to the graph keeps its tables inverse. -/
theorem Call.inverse (h : Call acts c d) (hc : c.graph.Inverse) : d.graph.Inverse := by
  cases h with
  | done => exact hc
  | watch => exact hc.watch _ _ _
  | unwatch => exact hc.unwatch _
  | trigger => exact hc

/-- Whatever is reached by calls, the tables stay inverse. -/
theorem Reaches.inverse (h : Reaches acts c d) (hc : c.graph.Inverse) : d.graph.Inverse := by
  induction h with
  | refl => exact hc
  | tail _ hcall ih => exact hcall.inverse ih

/-- The callbacks of a snapshot run one after the other. -/
theorem reaches_of_foldlM {run : Reaction → Trace → Option Trace}
    (hrun : ∀ {r t u} left, run r t = some u → Reaches Eq ⟨r :: left, t.graph⟩ ⟨left, u.graph⟩)
    {field : String} :
    ∀ (es : List (String × Reaction)) {t u : Trace} (left : List Reaction),
      es.foldlM (fun t e => run e.2 (t.note field e.1)) t = some u →
        Reaches Eq ⟨es.map Prod.snd ++ left, t.graph⟩ ⟨left, u.graph⟩ := by
  intro es
  induction es with
  | nil =>
    rintro t u left ⟨⟩
    exact .refl
  | cons e es ih =>
    intro t u left h
    rw [List.foldlM_cons] at h
    obtain ⟨t', hfirst, hrest⟩ := Option.bind_eq_some_iff.1 h
    exact (hrun (es.map Prod.snd ++ left) hfirst).trans (ih left hrest)

/-- What a reaction does is made up of calls to the graph, if what it triggers
is. -/
theorem reaches_of_reactWith {trigger : String → Trace → Option (Nat × Trace)}
    (htrigger : ∀ {field t u n} next left, trigger field t = some (n, u) →
      Reaches Eq ⟨.trigger field next :: left, t.graph⟩ ⟨next n :: left, u.graph⟩) (r : Reaction) :
    ∀ {t u : Trace} (left : List Reaction), reactWith trigger r t = some u →
      Reaches Eq ⟨r :: left, t.graph⟩ ⟨left, u.graph⟩ := by
  induction r with
  | done =>
    rintro t u left ⟨⟩
    exact .single .done
  | watch field watcher callback next _ ih =>
    intro t u left h
    exact .head .watch (ih _ left h)
  | unwatch watcher next ih =>
    intro t u left h
    exact .head .unwatch (ih left h)
  | trigger field next ih =>
    intro t u left h
    unfold reactWith at h
    split at h
    · simp at h
    · next n t' hfired => exact (htrigger next left hfired).trans (ih n left h)

/-- **A run of the graph passes through its stages.** -/
theorem reaches_of_react {fuel : Nat} {r : Reaction} {t u : Trace} (left : List Reaction)
    (h : react fuel r t = some u) : Reaches Eq ⟨r :: left, t.graph⟩ ⟨left, u.graph⟩ := by
  induction fuel generalizing r t u left with
  | zero => exact reaches_of_reactWith (fun _ _ hnone => by simp at hnone) r left h
  | succ fuel ih =>
    refine reaches_of_reactWith (fun {field t u n} next left hfired => ?_) r left h
    unfold triggerWith at hfired
    obtain ⟨u', hloop, heq⟩ := Option.map_eq_some_iff.1 hfired
    obtain ⟨rfl, rfl⟩ := Prod.mk.inj heq
    have hcount : (t.graph.callbacks field).values.length
        = (t.graph.callbacks field).entries.length := List.length_map _
    have hrest := reaches_of_foldlM (fun left => ih left) (t.graph.callbacks field).entries
      (next (t.graph.callbacks field).entries.length :: left) hloop
    refine .head (.trigger (List.forall₂_same.2 fun _ _ => rfl)) ?_
    rw [hcount]
    exact hrest

/-- A run that comes to its end leaves the tables inverse. -/
theorem Inverse.react {fuel : Nat} {r : Reaction} {t u : Trace} (ht : t.graph.Inverse)
    (h : react fuel r t = some u) : u.graph.Inverse :=
  (reaches_of_react [] h).inverse ht

/-! ## §5. What calls answer and change. -/

/-- **The two tables are inverse,** at every moment of every run from the empty
graph.  A watch answers that it is the first one of the field if none is listed,
and that it was there already if this pair is; it adds this pair, unless there
is one, which then keeps its callback.  To stop watching takes away the pairs of
the watcher, and no other. -/
theorem indexes_inverse {r : Reaction} (h : Reaches acts ⟨[r], ∅⟩ c) :
    c.graph.Inverse
      ∧ (∀ field watcher callback,
        ((c.graph.watch field watcher callback).1.isInitial = true
            ↔ ∀ name, ¬ c.graph.Lists field name)
          ∧ ((c.graph.watch field watcher callback).1.already = true
            ↔ c.graph.Lists field watcher)
          ∧ ∀ other name, ((c.graph.watch field watcher callback).2.callbacks other).get? name
            = if field = other ∧ watcher = name then
                some (((c.graph.callbacks field).get? watcher).getD callback)
              else (c.graph.callbacks other).get? name)
      ∧ ∀ watcher field name, ((c.graph.unwatch watcher).callbacks field).get? name
          = if watcher = name then none else (c.graph.callbacks field).get? name := by
  have hinverse : c.graph.Inverse := Reaches.inverse h inverse_empty
  refine ⟨hinverse, ?_, ?_⟩
  · intro field watcher callback
    exact ⟨isEmpty_callbacks_iff, lists_iff_callbacks.symm, fun _ _ => get?_callbacks_watch⟩
  · intro watcher field name
    exact hinverse.get?_callbacks_unwatch

/-- A callback that takes itself away and has another one watch. -/
def handOver : Reaction :=
  .unwatch "w" (.watch "f" "late" .done fun _ => .done)

/-- Watch, and trigger. -/
def watchAndTrigger : Reaction :=
  .watch "f" "w" handOver fun _ => .trigger "f" fun _ => .done

/-- In the middle of the callback nobody watches any more, and nothing is left in
either table. -/
theorem indexes_inverse_handOver : ∃ c, Reaches Eq ⟨[watchAndTrigger], ∅⟩ c
    ∧ c.left.length = 2 ∧ c.graph.watchers.size = 0 ∧ c.graph.watching.size = 0
    ∧ c.graph.Inverse
    ∧ ((c.graph.watch "f" "late" .done).1.isInitial = true
      ↔ ∀ name, ¬ c.graph.Lists "f" name) := by
  let watched : WatchGraph Reaction := (WatchGraph.watch ∅ "f" "w" handOver).2
  have htriggers : List.Forall₂ Eq (watched.callbacks "f").values [handOver] :=
    .cons rfl .nil
  have hreaches : Reaches Eq ⟨[watchAndTrigger], ∅⟩
      ⟨[.watch "f" "late" .done fun _ => .done, .done], watched.unwatch "w"⟩ :=
    ((Relation.ReflTransGen.single .watch).tail (.trigger htriggers)).tail .unwatch
  have h := indexes_inverse hreaches
  exact ⟨_, hreaches, rfl, by decide, by decide, h.1, (h.2.1 "f" "late" .done).1⟩

end LazyFields.WatchGraph
