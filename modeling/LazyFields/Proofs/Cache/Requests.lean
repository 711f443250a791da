/-
  LazyFields.Proofs.Cache.Requests
  ────────────────────────────────
  **WHAT THE OWNERS OF A CACHE ASK OF IT.**

  A `Request` is one call on a cache or on one of its guards.  Owners ask in
  any order and give up guards whenever they like; the one thing they never
  do is store into a field that somebody computes.  `Guarded.Reachable` are
  the caches that such calls lead to.

  Each call has one equation that says which fields are held afterwards:

    · `held_claim_of_acquired`, `claim_of_refused` — a claim adds its own field
      or changes nothing
    · `held_store`, `held_release` — storing and giving up free one field
    · `held_forget`, `held_expire`, `held_expireField` — forgetting frees none
-/
import LazyFields.Cache

namespace LazyFields

/-! ## §1. Requests. -/

/-- A call on a cache with guards.  Guards are known by the names that their
owners gave them. -/
inductive Request where
  | claim (field guard : String) (force : Bool)
  /-- Finish the computation of a guard. -/
  | finish (guard : String) (e : Entry)
  /-- Give up a guard unfinished. -/
  | drop (guard : String)
  | load (field : String)
  | status (field : String)
  | store (field : String) (e : Entry)
  | forget (field : String)
  | expire (time : Int)
  | expireField (field : String) (time : Int)

namespace Guarded

/-- The cache and its guards after a request. -/
def after (g : Guarded) : Request → Guarded
  | .claim field guard force => (g.claim field guard force).2
  | .finish guard e => (g.finish guard e).2
  | .drop guard => (g.drop guard).2
  | .load _ | .status _ => g
  | .store field e => { g with cache := g.cache.store field e }
  | .forget field => { g with cache := g.cache.forget field }
  | .expire time => { g with cache := (g.cache.expire time).2 }
  | .expireField field time => { g with cache := (g.cache.expireField field time).2 }

/-- Nobody stores into a field that is being computed. -/
def Permits (g : Guarded) : Request → Prop
  | .store field _ => g.cache.status field ≠ .computing
  | _ => True

/-- The caches that requests lead to, from the one in which nothing is stored
and nothing is claimed. -/
inductive Reachable : Guarded → Prop
  | empty : Reachable Guarded.empty
  | step {g : Guarded} (h : Reachable g) (r : Request) (ok : g.Permits r) :
      Reachable (g.after r)

end Guarded

/-! ## §2. Which fields are held. -/

namespace Cache

/-- A computation holds the field. -/
def Held (c : Cache) (field : String) : Prop :=
  ∃ previous, c.slot? field = some (.computing previous)

/-- A field is being computed if and only if somebody holds it. -/
theorem status_eq_computing_iff {c : Cache} {field : String} :
    c.status field = .computing ↔ c.Held field := by
  unfold status Held
  cases h : c.slot? field with
  | none => simp
  | some s =>
    cases s with
    | computing previous => simp [Slot.status]
    | stored e =>
      -- a stored entry shows as an error, as valid or as unset
      simp only [Option.map_some, Option.getD_some, Slot.status]
      split
      · simp
      · split <;> simp

/-- Nobody holds a field of the empty cache. -/
theorem not_held_empty (field : String) : ¬ (∅ : Cache).Held field := by
  simp [Held]

/-- Storing an entry releases its field, and no other. -/
theorem held_store (c : Cache) (field other : String) (e : Entry) :
    (c.store field e).Held other ↔ field ≠ other ∧ c.Held other := by
  unfold Held
  rw [slot?_store]
  by_cases h : field = other <;> simp [h]

/-- Releasing a field releases no other. -/
theorem held_release (c : Cache) (field other : String) :
    (c.release field).Held other ↔ field ≠ other ∧ c.Held other := by
  unfold Held
  rw [slot?_release]
  by_cases h : field = other
  · -- what a guard leaves behind is never a computation
    subst h
    cases hs : c.slot? field with
    | none => simp
    | some s =>
      cases s with
      | computing previous => cases previous <;> simp [Slot.release]
      | stored e => simp [Slot.release]
  · simp [h]

/-- Forgetting entries releases no field. -/
theorem held_forget (c : Cache) (field other : String) :
    (c.forget field).Held other ↔ c.Held other := by
  unfold Held
  rw [slot?_forget]
  by_cases h : field = other
  · subst h
    cases hs : c.slot? field with
    | none => simp
    | some s => cases s <;> simp [Slot.forget]
  · simp [h]

/-- Expiry releases no field. -/
theorem held_expire (c : Cache) (time : Int) (field : String) :
    (c.expire time).2.Held field ↔ c.Held field := by
  unfold Held
  rw [slot?_expire]
  cases hs : c.slot? field with
  | none => simp
  | some s =>
    cases s with
    | computing previous => simp [Option.filter, Slot.isStale]
    | stored e => simp [Option.filter]

/-- Expiry of one field releases none. -/
theorem held_expireField (c : Cache) (field : String) (time : Int) (other : String) :
    (c.expireField field time).2.Held other ↔ c.Held other := by
  unfold expireField
  split
  · exact held_forget c field other
  · exact Iff.rfl

/-! ## §3. What a claim answers. -/

/-- A claim is refused while somebody holds the field. -/
theorem claim_eq_busy_iff {c : Cache} {field : String} {force : Bool} :
    (c.claim field force).1 = .busy ↔ c.Held field := by
  unfold claim Held
  split
  · next previous h => simp [h]
  · next h => simp [h]
  · next e h => split <;> simp [h]

/-- A claim is answered with the entry if it is settled, unless it is forced. -/
theorem claim_eq_ready_iff {c : Cache} {field : String} {force : Bool} {e : Entry} :
    (c.claim field force).1 = .ready e
      ↔ c.slot? field = some (.stored e) ∧ force = false ∧ e.isSettled = true := by
  unfold claim
  split
  · next previous h => simp [h]
  · next h => simp [h]
  · next e' h =>
    split
    · next hready =>
      simp only [Bool.and_eq_true, Bool.not_eq_true'] at hready
      simp only [Claim.ready.injEq, h, Option.some.injEq, Slot.stored.injEq]
      constructor
      · rintro rfl
        exact ⟨rfl, hready⟩
      · exact And.left
    · next hready =>
      simp only [Bool.and_eq_true, Bool.not_eq_true'] at hready
      simp only [reduceCtorEq, false_iff, h, Option.some.injEq, Slot.stored.injEq]
      rintro ⟨rfl, hforce⟩
      exact hready hforce

/-- A claim that is refused changes nothing. -/
theorem claim_of_refused {c : Cache} {field : String} {force : Bool}
    (h : (c.claim field force).1 ≠ .acquired) : (c.claim field force).2 = c := by
  revert h
  unfold claim
  split
  · exact fun _ => rfl
  · exact fun h => absurd rfl h
  · split
    · exact fun _ => rfl
    · exact fun h => absurd rfl h

/-- A field that is acquired was held by nobody. -/
theorem not_held_of_acquired {c : Cache} {field : String} {force : Bool}
    (h : (c.claim field force).1 = .acquired) : ¬ c.Held field := by
  intro hheld
  rw [claim_eq_busy_iff.2 hheld] at h
  simp at h

/-- A claim that is granted holds its field, and no other field changes. -/
theorem held_claim_of_acquired {c : Cache} {field : String} {force : Bool}
    (h : (c.claim field force).1 = .acquired) (other : String) :
    (c.claim field force).2.Held other ↔ field = other ∨ c.Held other := by
  have hset : ∃ previous, (c.claim field force).2
      = c.setSlot field (some (.computing previous)) := by
    revert h
    unfold claim
    split
    · simp
    · exact fun _ => ⟨none, rfl⟩
    · next e _ =>
      split
      · simp
      · exact fun _ => ⟨some e, rfl⟩
  obtain ⟨previous, hset⟩ := hset
  unfold Held
  rw [hset, slot?_setSlot]
  by_cases hother : field = other <;> simp [hother]

end Cache

end LazyFields
