/-
  LazyFields.Proofs.Cache.SingleFlight
  ────────────────────────────────
  **ONE COMPUTATION OF A FIELD AT A TIME.**

  A guard that lives is the only thing that keeps a field computing, and no
  field has two.  `Guarded.Exclusive` is the invariant that carries this
  through every order of calls:

      a computation holds the field  ↔  some guard is for the field

  together with uniqueness of that guard.  `exclusive_after` is the step,
  `exclusive_of_reachable` the run, and `single_flight` reads off what every
  caller of `claim` may rely on.
-/
import LazyFields.Proofs.Cache.Requests
import Mathlib.Logic.ExistsUnique

namespace LazyFields.Guarded

/-! ## §1. The invariant. -/

/-- Some guard that lives is for the field. -/
def Live (g : Guarded) (field : String) : Prop := ∃ guard, g.guards.get? guard = some field

/-- Fields that are held and guards that live belong together, one to one. -/
structure Exclusive (g : Guarded) : Prop where
  held_iff : ∀ field, g.cache.Held field ↔ g.Live field
  unique : ∀ {field a b : String},
    g.guards.get? a = some field → g.guards.get? b = some field → a = b

theorem exclusive_empty : Exclusive Guarded.empty where
  held_iff field := by simp [Live, Guarded.empty, Cache.not_held_empty]
  unique h := by simp [Guarded.empty] at h

/-- A change of the cache that frees no field and holds none. -/
theorem Exclusive.congr {g : Guarded} (h : g.Exclusive) {cache : Cache}
    (hc : ∀ field, cache.Held field ↔ g.cache.Held field) :
    ({ g with cache } : Guarded).Exclusive :=
  ⟨fun field => (hc field).trans (h.held_iff field), h.unique⟩

/-- The end of a guard frees its field. -/
theorem Exclusive.settle {g : Guarded} (h : g.Exclusive) {guard field : String}
    (hg : g.guards.get? guard = some field) {cache : Cache}
    (hc : ∀ other, cache.Held other ↔ field ≠ other ∧ g.cache.Held other) :
    (⟨cache, g.guards.erase guard⟩ : Guarded).Exclusive := by
  -- the guard that ended is gone, and no other guard had its field
  constructor
  · intro other
    rw [hc, h.held_iff]
    constructor
    · rintro ⟨hne, live, hlive⟩
      refine ⟨live, ?_⟩
      have : guard ≠ live := by
        rintro rfl
        exact hne (Option.some.inj (hg.symm.trans hlive))
      simpa [Table.get?_erase, this] using hlive
    · rintro ⟨live, hlive⟩
      rw [Table.get?_erase] at hlive
      split at hlive
      · simp at hlive
      · next hne =>
        refine ⟨?_, live, hlive⟩
        rintro rfl
        exact hne (h.unique hg hlive)
  · intro other a b ha hb
    rw [Table.get?_erase] at ha hb
    split at ha
    · simp at ha
    · split at hb
      · simp at hb
      · exact h.unique ha hb

/-- A new guard under a free name for a field that nobody holds. -/
theorem Exclusive.take {g : Guarded} (h : g.Exclusive) {guard field : String}
    (hg : g.guards.get? guard = none) (hfree : ¬ g.cache.Held field) {cache : Cache}
    (hc : ∀ other, cache.Held other ↔ field = other ∨ g.cache.Held other) :
    (⟨cache, g.guards.insert guard field⟩ : Guarded).Exclusive := by
  -- a guard that has the field would hold it
  have hnone : ∀ live, g.guards.get? live ≠ some field := fun live hlive =>
    hfree ((h.held_iff field).2 ⟨live, hlive⟩)
  constructor
  · intro other
    rw [hc, h.held_iff]
    constructor
    · rintro (rfl | ⟨live, hlive⟩)
      · exact ⟨guard, Table.get?_insert_self ..⟩
      · refine ⟨live, ?_⟩
        have : guard ≠ live := by
          rintro rfl
          simp [hg] at hlive
        rw [Table.get?_insert_ne _ this]
        exact hlive
    · rintro ⟨live, hlive⟩
      rw [Table.get?_insert] at hlive
      split at hlive
      · exact .inl (Option.some.inj hlive)
      · exact .inr ⟨live, hlive⟩
  · intro other a b ha hb
    rw [Table.get?_insert] at ha hb
    split at ha <;> split at hb
    · next h₁ h₂ => exact h₁.symm.trans h₂
    · cases ha
      exact absurd hb (hnone b)
    · cases hb
      exact absurd ha (hnone a)
    · exact h.unique ha hb

/-! ## §2. One request. -/

theorem exclusive_drop {g : Guarded} (h : g.Exclusive) (guard : String) :
    (g.drop guard).2.Exclusive := by
  unfold drop
  split
  · exact h
  · next field hg => exact h.settle hg (g.cache.held_release field)

theorem exclusive_finish {g : Guarded} (h : g.Exclusive) (guard : String) (e : Entry) :
    (g.finish guard e).2.Exclusive := by
  unfold finish
  split
  · exact h
  · next field hg => exact h.settle hg fun other => g.cache.held_store field other e

theorem get?_guards_drop (g : Guarded) (guard : String) :
    (g.drop guard).2.guards.get? guard = none := by
  unfold drop
  split
  · next h => exact h
  · simp [Table.get?_erase]

theorem claim_answer (g : Guarded) (field guard : String) (force : Bool) :
    (g.claim field guard force).1 = (g.cache.claim field force).1 := by
  unfold claim
  split
  · next h => rw [h]
  · next h => rw [h]

theorem exclusive_claim {g : Guarded} (h : g.Exclusive) (field guard : String) (force : Bool) :
    (g.claim field guard force).2.Exclusive := by
  unfold claim
  split
  · next cache hclaim =>
    have hacq : (g.cache.claim field force).1 = .acquired := by rw [hclaim]
    have hfree := Cache.not_held_of_acquired hacq
    have hheld : ∀ other, cache.Held other ↔ field = other ∨ g.cache.Held other := by
      intro other
      have := Cache.held_claim_of_acquired hacq other
      rwa [hclaim] at this
    -- the older guard of that name goes after the claim; going before it comes to the same
    cases hg : g.guards.get? guard with
    | none =>
      simp only [drop, hg]
      exact h.take hg hfree hheld
    | some old =>
      have hold : old ≠ field := by
        rintro rfl
        exact hfree ((h.held_iff old).2 ⟨guard, hg⟩)
      have hdrop := exclusive_drop h guard
      have hfree' : ¬ (g.drop guard).2.cache.Held field := by
        simp only [drop, hg, Cache.held_release]
        exact fun h' => hfree h'.2
      have hheld' : ∀ other, (cache.release old).Held other ↔
          field = other ∨ (g.drop guard).2.cache.Held other := by
        intro other
        simp only [drop, hg, Cache.held_release, hheld]
        constructor
        · rintro ⟨hne, heq | hother⟩
          · exact .inl heq
          · exact .inr ⟨hne, hother⟩
        · rintro (rfl | ⟨hne, hother⟩)
          · exact ⟨hold, .inl rfl⟩
          · exact ⟨hne, .inr hother⟩
      have := hdrop.take (get?_guards_drop g guard) hfree' hheld'
      simpa only [drop, hg] using this
  · next answer cache hne hclaim =>
    have hsame : cache = g.cache := by
      have hrefused : (g.cache.claim field force).1 ≠ .acquired := by rw [hclaim]; exact hne
      have := Cache.claim_of_refused hrefused
      rwa [hclaim] at this
    subst hsame
    exact h

/-- **A request keeps fields and guards together.** -/
theorem exclusive_after {g : Guarded} (h : g.Exclusive) {r : Request} (ok : g.Permits r) :
    (g.after r).Exclusive := by
  cases r with
  | claim field guard force => exact exclusive_claim h field guard force
  | finish guard e => exact exclusive_finish h guard e
  | drop guard => exact exclusive_drop h guard
  | load field => exact h
  | status field => exact h
  | store field e =>
    -- the only request with a condition: a held field would lose its guard
    have hfree : ¬ g.cache.Held field := fun hheld =>
      ok (Cache.status_eq_computing_iff.2 hheld)
    refine h.congr fun other => ?_
    rw [Cache.held_store]
    constructor
    · exact And.right
    · rintro hother
      refine ⟨?_, hother⟩
      rintro rfl
      exact hfree hother
  | forget field => exact h.congr (g.cache.held_forget field)
  | expire time => exact h.congr (g.cache.held_expire time)
  | expireField field time => exact h.congr (g.cache.held_expireField field time)

/-! ## §3. Every order of requests. -/

theorem exclusive_of_reachable {g : Guarded} (h : Reachable g) : g.Exclusive := by
  induction h with
  | empty => exact exclusive_empty
  | step _ r ok ih => exact exclusive_after ih ok

/-- **Single flight.**  After any requests a field is computing exactly when
there is one guard for it, there are never two, and a claim is answered by
what the field holds: busy if a guard lives, else a settled entry unless the
claim is forced, else the field itself. -/
theorem single_flight {g : Guarded} (h : Reachable g) :
    (∀ field, g.cache.status field = .computing ↔
      ∃! guard, g.guards.get? guard = some field)
    ∧ (∀ field a b, g.guards.get? a = some field → g.guards.get? b = some field → a = b)
    ∧ ∀ field guard force,
      ((g.claim field guard force).1 = .busy ↔ g.Live field)
      ∧ (∀ e, (g.claim field guard force).1 = .ready e ↔
          ¬ g.Live field ∧ force = false ∧ g.cache.slot? field = some (.stored e)
            ∧ (e.valid = true ∨ e.error ≠ none))
      ∧ ((g.claim field guard force).1 = .acquired ↔
          ¬ g.Live field ∧ ¬ (force = false ∧ ∃ e, g.cache.slot? field = some (.stored e)
            ∧ (e.valid = true ∨ e.error ≠ none))) := by
  have hex := exclusive_of_reachable h
  have hsettled : ∀ e : Entry, e.isSettled = true ↔ (e.valid = true ∨ e.error ≠ none) := by
    intro e
    simp [Entry.isSettled, Option.isSome_iff_ne_none]
  have hbusy : ∀ field force, (g.cache.claim field force).1 = .busy ↔ g.Live field :=
    fun field force => Cache.claim_eq_busy_iff.trans (hex.held_iff field)
  have hready : ∀ field force e, (g.cache.claim field force).1 = .ready e ↔
      ¬ g.Live field ∧ force = false ∧ g.cache.slot? field = some (.stored e)
        ∧ (e.valid = true ∨ e.error ≠ none) := by
    intro field force e
    rw [Cache.claim_eq_ready_iff, hsettled, ← hex.held_iff]
    constructor
    · rintro ⟨hslot, hforce, he⟩
      exact ⟨by simp [Cache.Held, hslot], hforce, hslot, he⟩
    · rintro ⟨-, hforce, hslot, he⟩
      exact ⟨hslot, hforce, he⟩
  refine ⟨fun field => ?_, fun field a b => hex.unique, fun field guard force => ?_⟩
  · rw [Cache.status_eq_computing_iff, hex.held_iff]
    constructor
    · rintro ⟨guard, hg⟩
      exact ⟨guard, hg, fun other ho => hex.unique ho hg⟩
    · rintro ⟨guard, hg, -⟩
      exact ⟨guard, hg⟩
  · rw [claim_answer]
    refine ⟨hbusy field force, hready field force, ?_⟩
    constructor
    · intro hacq
      refine ⟨fun hlive => ?_, ?_⟩
      · simp [(hbusy field force).2 hlive] at hacq
      · rintro ⟨hforce, e, hslot, he⟩
        have hlive : ¬ g.Live field := fun hlive => by
          simp [(hbusy field force).2 hlive] at hacq
        simp [(hready field force e).2 ⟨hlive, hforce, hslot, he⟩] at hacq
    · rintro ⟨hlive, hnone⟩
      -- neither of the two refusals is possible, and there is no third
      cases hanswer : (g.cache.claim field force).1 with
      | acquired => rfl
      | busy => exact absurd ((hbusy field force).1 hanswer) hlive
      | ready e =>
        obtain ⟨-, hforce, hslot, he⟩ := (hready field force e).1 hanswer
        exact absurd ⟨hforce, e, hslot, he⟩ hnone

/-- A field that was computed and is computed again: forgetting it does not
let another claim in. -/
theorem busy_while_recomputed :
    let e := Entry.ofValue (.int 1) 5
    let g := (((Guarded.empty.after (.claim "f" "a" false)).after (.finish "a" e)).after
      (.claim "f" "b" true)).after (.forget "f")
    Reachable g ∧ (g.claim "f" "c" true).1 = .busy := by
  intro e g
  have h₁ : Reachable (Guarded.empty.after (.claim "f" "a" false)) :=
    .step .empty (.claim "f" "a" false) trivial
  have h₂ := Reachable.step h₁ (.finish "a" e) trivial
  have h₃ := Reachable.step h₂ (.claim "f" "b" true) trivial
  have h : Reachable g := .step h₃ (.forget "f") trivial
  exact ⟨h, ((single_flight h).2.2 "f" "c" true).1.2 ⟨"b", by decide +kernel⟩⟩

end LazyFields.Guarded
