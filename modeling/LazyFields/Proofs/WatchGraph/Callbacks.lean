/-
  LazyFields.Proofs.WatchGraph.Callbacks
  ────────────────────────────────
  **THE CALLBACKS OF A FIELD AFTER EACH CHANGE OF THE GRAPH.**

  What a trigger will run is the table of callbacks of a field, so every
  change of the graph is known by one equation or bound on it:

    · `get?_callbacks_watch` — watching adds one callback, unless there is one
    · `get?_callbacks_unwatch_of_ne`, `get?_callbacks_of_unwatch` — to stop
      watching adds nothing, and removes callbacks of that watcher only
-/
import LazyFields.WatchGraph

namespace LazyFields

/-- A table is empty if nothing is found in it. -/
theorem Table.isEmpty_iff {α : Type} {t : Table α} :
    t.isEmpty = true ↔ ∀ k, t.get? k = none := by
  constructor
  · intro h k
    have hnil : t.entries = [] := by simpa [isEmpty] using h
    simp [get?, hnil]
  · intro h
    have hempty : t = ∅ := ext_get? fun k => by rw [h k, get?_empty]
    subst hempty
    rfl

namespace WatchGraph

variable {κ : Type} {g : WatchGraph κ} {address other watcher name : String} {callback cb : κ}

@[simp] theorem callbacks_empty : (∅ : WatchGraph κ).callbacks address = ∅ := rfl

/-! ## §1. Watching. -/

/-- **Watching adds one callback, unless there is one.** -/
theorem get?_callbacks_watch :
    ((g.watch address watcher callback).2.callbacks other).get? name
      = if address = other ∧ watcher = name then
          some (((g.callbacks address).get? watcher).getD callback)
        else (g.callbacks other).get? name := by
  unfold watch callbacks
  simp only [Table.get?_insert]
  by_cases ha : address = other
  · subst ha
    simp only [if_true, Option.getD_some, true_and]
    by_cases hw : watcher = name
    · subst hw
      simp only [if_true]
      -- whoever watches already keeps the old callback
      split
      · next halready =>
        obtain ⟨cb, hcb⟩ := Option.isSome_iff_exists.1 halready
        rw [hcb, Option.getD_some]
      · next hnew =>
        have hnone := Option.not_isSome_iff_eq_none.1 hnew
        rw [Table.get?_insert_self, hnone, Option.getD_none]
    · simp only [hw, if_false]
      split
      · rfl
      · exact Table.get?_insert_ne _ hw _
  · simp [ha]

/-- What was watched stays watched, with its callback. -/
theorem get?_callbacks_watch_of_some (h : (g.callbacks other).get? name = some cb) :
    ((g.watch address watcher callback).2.callbacks other).get? name = some cb := by
  rw [get?_callbacks_watch]
  split
  · next heq =>
    obtain ⟨rfl, rfl⟩ := heq
    rw [h, Option.getD_some]
  · exact h

/-- After `watch`, the watcher has a callback at the address. -/
theorem exists_get?_callbacks_watch :
    ∃ cb, ((g.watch address watcher callback).2.callbacks address).get? watcher = some cb := by
  rw [get?_callbacks_watch, if_pos ⟨rfl, rfl⟩]
  exact ⟨_, rfl⟩

/-- A callback is one from before, or the new one. -/
theorem get?_callbacks_of_watch
    (h : ((g.watch address watcher callback).2.callbacks other).get? name = some cb) :
    (g.callbacks other).get? name = some cb
      ∨ (g.callbacks address).get? watcher = none
        ∧ address = other ∧ watcher = name ∧ callback = cb := by
  rw [get?_callbacks_watch] at h
  split at h
  · next heq =>
    obtain ⟨rfl, rfl⟩ := heq
    cases hget : (g.callbacks address).get? watcher with
    | none => exact .inr ⟨rfl, rfl, rfl, by simpa [hget] using h⟩
    | some old => exact .inl (by simpa [hget] using h)
  · exact .inl h

/-! ## §2. To stop watching. -/

/-- Unlinking takes away the callback of the watcher at the address, and no
other. -/
theorem get?_callbacks_unlink (watchers : Table (Table κ)) (watching : Table NameSet) :
    ((⟨unlink watchers watcher address, watching⟩ : WatchGraph κ).callbacks other).get? name
      = if address = other ∧ watcher = name then none
        else ((⟨watchers, watching⟩ : WatchGraph κ).callbacks other).get? name := by
  unfold unlink callbacks
  by_cases ha : address = other
  · subst ha
    cases hget : watchers.get? address with
    | none => simp [hget]
    | some old =>
      -- an empty rest is not kept, which no look-up can tell
      have hrest : ((if (old.erase watcher).isEmpty then watchers.erase address
          else watchers.insert address (old.erase watcher)).get? address).getD ∅
            = old.erase watcher := by
        split
        · next hempty =>
          rw [Table.get?_erase, if_pos rfl, Option.getD_none]
          exact Table.ext_get? fun k => (Table.isEmpty_iff.1 hempty k).symm ▸ rfl
        · rw [Table.get?_insert_self, Option.getD_some]
      simp only [Option.getD_some, true_and]
      rw [hrest, Table.get?_erase]
  · cases hget : watchers.get? address with
    | none => simp [ha]
    | some old =>
      simp only [ha, false_and, if_false]
      split
      · rw [Table.get?_erase, if_neg ha]
      · rw [Table.get?_insert_ne _ ha]

/-- Unlinking along addresses takes away the callbacks of the watcher there, and no
other. -/
theorem get?_callbacks_foldl_unlink (addresses : List String) (watching : Table NameSet) :
    ∀ watchers : Table (Table κ),
      ((⟨addresses.foldl (fun w a => unlink w watcher a) watchers, watching⟩ :
          WatchGraph κ).callbacks other).get? name
        = if other ∈ addresses ∧ watcher = name then none
          else ((⟨watchers, watching⟩ : WatchGraph κ).callbacks other).get? name := by
  induction addresses with
  | nil => simp
  | cons a addresses ih =>
    intro watchers
    rw [List.foldl_cons, ih, get?_callbacks_unlink]
    by_cases ha : a = other
    · by_cases hw : watcher = name <;> simp [ha, hw]
    · simp [ha, Ne.symm ha]

/-- `unwatch` takes away every callback of the watcher, and no other. -/
theorem get?_callbacks_unwatch :
    ((g.unwatch watcher).callbacks other).get? name
      = if other ∈ (g.fieldsOf watcher).keys ∧ watcher = name then none
        else (g.callbacks other).get? name :=
  get?_callbacks_foldl_unlink ..

/-- To stop watching adds nothing. -/
theorem get?_callbacks_of_unwatch
    (h : ((g.unwatch watcher).callbacks other).get? name = some cb) :
    (g.callbacks other).get? name = some cb := by
  rw [get?_callbacks_unwatch] at h
  split at h
  · simp at h
  · exact h

/-- To stop watching leaves the other watchers alone. -/
theorem get?_callbacks_unwatch_of_ne (h : watcher ≠ name) :
    ((g.unwatch watcher).callbacks other).get? name = (g.callbacks other).get? name := by
  rw [get?_callbacks_unwatch, if_neg fun h' => h h'.2]

end WatchGraph

end LazyFields
