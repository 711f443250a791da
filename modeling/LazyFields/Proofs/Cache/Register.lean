/-
  LazyFields.Proofs.Cache.Register
  ────────────────────────────────
  **A CACHE READS AS A REGISTER.**

  Whoever reads a field is not to notice that somebody computes it.  A
  `Register` is what he believes to see: one entry for each field, and no word
  of computations.  Storing and finishing write an entry, forgetting and
  eviction clear it unless the field is guarded, nothing else changes any.

      the cache after requests  reads as  the register after the same requests

  `shows_after` is the step of this simulation, `shows_afterAll` the run.

  The second half is about the one slot that a guard holds.  As long as the
  guard lives no request changes it (`slot?_after_of_kept`), so that giving the
  guard up puts back exactly what its claim found.
-/
import LazyFields.Proofs.Cache.SingleFlight

namespace LazyFields

/-! ## §1. Registers. -/

/-- One entry for each field, and the fields of the guards that live. -/
structure Register where
  entries : Table Entry
  guards : Table String

namespace Register

/-- No entry and no guard. -/
def empty : Register := ⟨∅, ∅⟩

/-- Whether some guard is for the field. -/
def isGuarded (r : Register) (field : String) : Bool := r.guards.values.contains field

/-- The register after a request.  Claims and guards that are given up move
guards alone. -/
def after (r : Register) : Request → Register
  | .claim field guard force =>
      if r.isGuarded field || (!force && (r.entries.get? field).any Entry.isSettled) then r
      else { r with guards := r.guards.insert guard field }
  | .finish guard e =>
      match r.guards.get? guard with
      | none => r
      | some field => ⟨r.entries.insert field e, r.guards.erase guard⟩
  | .drop guard => { r with guards := r.guards.erase guard }
  | .load _ | .status _ => r
  | .store field e => { r with entries := r.entries.insert field e }
  | .forget field =>
      if r.isGuarded field then r else { r with entries := r.entries.erase field }
  | .expire time =>
      { r with entries := r.entries.filter fun field e =>
          r.isGuarded field || !decide (e.timestamp < time) }
  | .expireField field time =>
      if !r.isGuarded field && (r.entries.get? field).any (fun e => e.timestamp < time) then
        { r with entries := r.entries.erase field }
      else r

/-- The register after requests. -/
def afterAll (r : Register) (requests : List Request) : Register := requests.foldl after r

/-- A field is guarded if some guard is for it. -/
theorem isGuarded_iff {r : Register} {field : String} :
    r.isGuarded field = true ↔ ∃ guard, r.guards.get? guard = some field := by
  rw [isGuarded, List.contains_iff_mem, Table.mem_values]

end Register

namespace Guarded

/-- The cache and its guards after requests. -/
def afterAll (g : Guarded) (requests : List Request) : Guarded := requests.foldl after g

/-- Nobody stores into a field that is being computed, at any of the
requests. -/
def PermitsAll : Guarded → List Request → Prop
  | _, [] => True
  | g, r :: requests => g.Permits r ∧ PermitsAll (g.after r) requests

/-- The guard lives for the field all along the requests. -/
def Keeps (guard field : String) : Guarded → List Request → Prop
  | g, [] => g.guards.get? guard = some field
  | g, r :: requests => g.guards.get? guard = some field ∧ Keeps guard field (g.after r) requests

/-- The request ends the guard unfinished: it gives the guard up, or its name
goes to another one. -/
def GivesUp (g : Guarded) (guard : String) : Request → Prop
  | .drop name => name = guard
  | .claim field name force => name = guard ∧ (g.cache.claim field force).1 = .acquired
  | _ => False

/-- Readers of the cache see the register, and the guards are the same. -/
structure Shows (g : Guarded) (r : Register) : Prop where
  entries : ∀ field, g.cache.get? field = r.entries.get? field
  guards : g.guards = r.guards

end Guarded

/-! ## §2. What readers see after each call. -/

namespace Cache

/-- Without a slot there is no entry. -/
theorem get?_eq_none_of_slot? {c : Cache} {field : String} (h : c.slot? field = none) :
    c.get? field = none := by
  simp [get?, h]

/-- Only the slot counts. -/
theorem get?_congr {c d : Cache} {field : String} (h : c.slot? field = d.slot? field) :
    c.get? field = d.get? field := by
  simp [get?, h]

/-- What a claim that is granted leaves in its field: the entry from before,
for readers. -/
theorem slot?_claim_of_acquired {c : Cache} {field : String} {force : Bool}
    (h : (c.claim field force).1 = .acquired) (other : String) :
    (c.claim field force).2.slot? other
      = if field = other then some (.computing (c.get? field)) else c.slot? other := by
  revert h
  unfold claim
  split
  · simp
  · next hnone =>
    intro _
    rw [slot?_setSlot, get?_eq_none_of_slot? hnone]
  · next e hstored =>
    split
    · simp
    · intro _
      have hseen : c.get? field = some e := by simp [get?, hstored, Slot.seen]
      rw [slot?_setSlot, hseen]

/-- A claim shows the same entries. -/
theorem get?_claim (c : Cache) (field : String) (force : Bool) (other : String) :
    (c.claim field force).2.get? other = c.get? other := by
  by_cases h : (c.claim field force).1 = .acquired
  · by_cases hother : field = other
    · subst hother
      simp [get?, slot?_claim_of_acquired h, Slot.seen]
    · exact get?_congr (by rw [slot?_claim_of_acquired h, if_neg hother])
  · rw [claim_of_refused h]

/-- So does giving it back. -/
theorem get?_release (c : Cache) (field other : String) :
    (c.release field).get? other = c.get? other := by
  by_cases h : field = other
  · subst h
    simp only [get?, slot?_release, if_true]
    cases c.slot? field with
    | none => rfl
    | some s =>
      cases s with
      | computing previous => cases previous <;> rfl
      | stored e => rfl
  · exact get?_congr (by rw [slot?_release, if_neg h])

/-- Storing an entry shows it, and the others as before. -/
theorem get?_store (c : Cache) (field other : String) (e : Entry) :
    (c.store field e).get? other = if field = other then some e else c.get? other := by
  by_cases h : field = other
  · simp [get?, slot?_store, h, Slot.seen]
  · rw [if_neg h]
    exact get?_congr (by rw [slot?_store, if_neg h])

/-- A field that nobody computes is empty, or has an entry. -/
theorem slot?_cases_of_not_held {c : Cache} {field : String} (h : ¬ c.Held field) :
    c.slot? field = none ∨ ∃ e, c.slot? field = some (.stored e) := by
  cases hs : c.slot? field with
  | none => exact Or.inl rfl
  | some s =>
    cases s with
    | computing previous => exact absurd ⟨previous, hs⟩ h
    | stored e => exact Or.inr ⟨e, rfl⟩

/-- To forget the entry of a field clears it, unless somebody computes the
field. -/
theorem get?_forget {c : Cache} {field : String} (h : ¬ c.Held field) (other : String) :
    (c.forget field).get? other = if field = other then none else c.get? other := by
  by_cases hother : field = other
  · subst hother
    rw [if_pos rfl]
    refine get?_eq_none_of_slot? ?_
    rw [slot?_forget, if_pos rfl]
    obtain hs | ⟨e, hs⟩ := slot?_cases_of_not_held h <;> rw [hs] <;> rfl
  · rw [if_neg hother]
    exact get?_congr (by rw [slot?_forget, if_neg hother])

/-- What is computed is not forgotten. -/
theorem forget_of_held {c : Cache} {field : String} (h : c.Held field) : c.forget field = c := by
  refine ext_slot? fun other => ?_
  rw [slot?_forget]
  split
  · next heq =>
    obtain ⟨previous, hs⟩ := h
    rw [← heq, hs]
    rfl
  · rfl

/-- What is held does not expire. -/
theorem slot?_expire_of_held {c : Cache} {field : String} (h : c.Held field) (time : Int) :
    (c.expire time).2.slot? field = c.slot? field := by
  obtain ⟨previous, hs⟩ := h
  rw [slot?_expire, hs]
  rfl

/-- Anything else expires if it is older. -/
theorem get?_expire {c : Cache} {field : String} (h : ¬ c.Held field) (time : Int) :
    (c.expire time).2.get? field
      = (c.get? field).filter fun e => !decide (e.timestamp < time) := by
  simp only [get?, slot?_expire]
  obtain hs | ⟨e, hs⟩ := slot?_cases_of_not_held h <;> rw [hs]
  · rfl
  · by_cases he : e.timestamp < time <;> simp [Option.filter, Slot.isStale, Slot.seen, he]

/-- Whether the entry of a field is too old shows in what readers see of it. -/
theorem any_isStale {c : Cache} {field : String} (h : ¬ c.Held field) (time : Int) :
    (c.slot? field).any (Slot.isStale time) = (c.get? field).any fun e => e.timestamp < time := by
  simp only [get?]
  obtain hs | ⟨e, hs⟩ := slot?_cases_of_not_held h <;> rw [hs] <;> rfl

/-- Nor does it expire alone. -/
theorem expireField_of_held {c : Cache} {field : String} (h : c.Held field) (time : Int) :
    c.expireField field time = (false, c) := by
  obtain ⟨previous, hs⟩ := h
  simp [expireField, hs, Slot.isStale]

/-- A claim is granted when nobody holds the field and it is forced or not
settled. -/
theorem claim_eq_acquired_iff {c : Cache} {field : String} {force : Bool} :
    (c.claim field force).1 = .acquired
      ↔ ¬ c.Held field ∧ (force = false → (c.get? field).any Entry.isSettled = false) := by
  unfold claim Held get?
  split
  · next previous hs => simp [hs]
  · next hs => simp [hs]
  · next e hs =>
    cases force <;> cases he : e.isSettled <;> simp [hs, Slot.seen, he]

end Cache

/-! ## §3. One request. -/

namespace Guarded

variable {g : Guarded} {r : Register}

/-- A field is guarded if the cache holds it. -/
theorem Shows.isGuarded_iff (h : g.Shows r) (hex : g.Exclusive) {field : String} :
    r.isGuarded field = true ↔ g.cache.Held field := by
  rw [Register.isGuarded_iff, ← h.guards, hex.held_iff]
  rfl

/-- To give a guard up is seen by no reader. -/
theorem get?_drop (g : Guarded) (guard other : String) :
    (g.drop guard).2.cache.get? other = g.cache.get? other := by
  unfold drop
  split
  · rfl
  · exact g.cache.get?_release _ other

/-- A guard that is dropped is gone. -/
theorem guards_drop (g : Guarded) (guard : String) :
    (g.drop guard).2.guards = g.guards.erase guard := by
  unfold drop
  split
  · next hnone =>
    refine Table.ext_get? fun other => ?_
    rw [Table.get?_erase]
    split
    · next heq => rw [← heq, hnone]
    · rfl
  · rfl

/-- A claim that is granted gives up the older guard of the name, and the new
one is for the field. -/
theorem claim_of_acquired {field : String} {force : Bool}
    (h : (g.cache.claim field force).1 = .acquired) (guard : String) :
    (g.claim field guard force).2
      = ⟨(drop ⟨(g.cache.claim field force).2, g.guards⟩ guard).2.cache,
        g.guards.insert guard field⟩ := by
  have hguards : (g.guards.erase guard).insert guard field = g.guards.insert guard field := by
    refine Table.ext_get? fun other => ?_
    rw [Table.get?_insert, Table.get?_insert, Table.get?_erase]
    split <;> rfl
  unfold claim
  split
  · next cache hclaim => simp only [guards_drop, hguards, hclaim]
  · next answer cache hne hclaim => exact absurd (by rw [hclaim] at h; exact h) hne

/-- A claim that is refused changes nothing. -/
theorem claim_of_refused {field : String} {force : Bool}
    (h : (g.cache.claim field force).1 ≠ .acquired) (guard : String) :
    (g.claim field guard force).2 = g := by
  unfold claim
  split
  · next cache hclaim => exact absurd (by rw [hclaim]) h
  · next answer cache hne hclaim =>
    have := Cache.claim_of_refused h
    rw [hclaim] at this
    rw [show cache = g.cache from this]

/-- A claim is seen by no reader. -/
theorem get?_claim (g : Guarded) (field guard : String) (force : Bool) (other : String) :
    (g.claim field guard force).2.cache.get? other = g.cache.get? other := by
  by_cases h : (g.cache.claim field force).1 = .acquired
  · rw [claim_of_acquired h, get?_drop]
    exact g.cache.get?_claim field force other
  · rw [claim_of_refused h]

/-- A claim goes alike with the register. -/
theorem shows_claim (h : g.Shows r) (hex : g.Exclusive) (field guard : String) (force : Bool) :
    (g.claim field guard force).2.Shows (r.after (.claim field guard force)) := by
  constructor
  · intro other
    rw [get?_claim, h.entries]
    simp only [Register.after]
    split <;> rfl
  · have hgranted : (g.cache.claim field force).1 = .acquired ↔
        ¬ (r.isGuarded field || (!force && (r.entries.get? field).any Entry.isSettled)) = true := by
      rw [Cache.claim_eq_acquired_iff, ← h.isGuarded_iff hex, h.entries]
      cases r.isGuarded field <;> cases force <;> simp
    by_cases hacq : (g.cache.claim field force).1 = .acquired
    · rw [claim_of_acquired hacq, Register.after, if_neg (hgranted.1 hacq), h.guards]
    · have hrefused := Decidable.of_not_not (mt hgranted.2 hacq)
      rw [claim_of_refused hacq, Register.after, if_pos hrefused, h.guards]

/-- So does finishing. -/
theorem shows_finish (h : g.Shows r) (guard : String) (e : Entry) :
    (g.finish guard e).2.Shows (r.after (.finish guard e)) := by
  simp only [finish, Register.after, ← h.guards]
  cases g.guards.get? guard with
  | none => exact h
  | some field =>
    refine ⟨fun other => ?_, rfl⟩
    simp only [Cache.finish]
    rw [Cache.get?_store, Table.get?_insert, h.entries]

/-- So does forgetting. -/
theorem shows_forget (h : g.Shows r) (hex : g.Exclusive) (field : String) :
    (g.after (.forget field)).Shows (r.after (.forget field)) := by
  simp only [after, Register.after]
  by_cases hheld : g.cache.Held field
  · rw [if_pos ((h.isGuarded_iff hex).2 hheld), Cache.forget_of_held hheld]
    exact h
  · rw [if_neg (mt (h.isGuarded_iff hex).1 hheld)]
    refine ⟨fun other => ?_, h.guards⟩
    rw [Cache.get?_forget hheld, Table.get?_erase, h.entries]

/-- So does expiry. -/
theorem shows_expire (h : g.Shows r) (hex : g.Exclusive) (time : Int) :
    (g.after (.expire time)).Shows (r.after (.expire time)) := by
  refine ⟨fun field => ?_, h.guards⟩
  simp only [after, Register.after, Table.get?_filter, ← h.entries]
  by_cases hheld : g.cache.Held field
  · -- everything passes the test of a guarded field
    rw [Cache.get?_congr (Cache.slot?_expire_of_held hheld time)]
    cases g.cache.get? field <;> simp [(h.isGuarded_iff hex).2 hheld, Option.filter]
  · rw [Cache.get?_expire hheld]
    have hfree : r.isGuarded field = false := by simpa [← h.isGuarded_iff hex] using hheld
    simp [hfree]

/-- So does the expiry of one field. -/
theorem shows_expireField (h : g.Shows r) (hex : g.Exclusive) (field : String) (time : Int) :
    (g.after (.expireField field time)).Shows (r.after (.expireField field time)) := by
  simp only [after, Register.after]
  by_cases hheld : g.cache.Held field
  · rw [Cache.expireField_of_held hheld]
    simpa [(h.isGuarded_iff hex).2 hheld] using h
  · have hfree : r.isGuarded field = false := by simpa [← h.isGuarded_iff hex] using hheld
    simp only [Cache.expireField, Cache.any_isStale hheld, h.entries, hfree, Bool.not_false,
      Bool.true_and]
    split
    · refine ⟨fun other => ?_, h.guards⟩
      rw [Cache.get?_forget hheld, Table.get?_erase, h.entries]
    · exact h

/-- **A request shows in the cache as it does in the register.** -/
theorem shows_after (h : g.Shows r) (hex : g.Exclusive) (request : Request) :
    (g.after request).Shows (r.after request) := by
  cases request with
  | claim field guard force => exact shows_claim h hex field guard force
  | finish guard e => exact shows_finish h guard e
  | drop guard =>
    refine ⟨fun field => ?_, ?_⟩
    · exact (get?_drop g guard field).trans (h.entries field)
    · exact (guards_drop g guard).trans (congrArg (·.erase guard) h.guards)
  | load field => exact h
  | status field => exact h
  | store field e =>
    refine ⟨fun other => ?_, h.guards⟩
    simp only [after, Register.after]
    rw [Cache.get?_store, Table.get?_insert, h.entries]
  | forget field => exact shows_forget h hex field
  | expire time => exact shows_expire h hex time
  | expireField field time => exact shows_expireField h hex field time

/-- Requests that store into no field that is computed show in the cache as
they do in the register. -/
theorem shows_afterAll (hex : g.Exclusive) (h : g.Shows r) :
    ∀ {requests : List Request}, g.PermitsAll requests →
      (g.afterAll requests).Shows (r.afterAll requests) := by
  intro requests
  induction requests generalizing g r with
  | nil => exact fun _ => h
  | cons request requests ih =>
    exact fun ok => ih (exclusive_after hex ok.1) (shows_after h hex request) ok.2

/-- Permitted requests keep guards exclusive. -/
theorem exclusive_afterAll (hex : g.Exclusive) :
    ∀ {requests : List Request}, g.PermitsAll requests → (g.afterAll requests).Exclusive := by
  intro requests
  induction requests generalizing g with
  | nil => exact fun _ => hex
  | cons request requests ih => exact fun ok => ih (exclusive_after hex ok.1) ok.2

/-! ## §4. The slot of a guard. -/

section Kept

variable {guard field : String}

/-- The guard of a field does not come to another one. -/
theorem slot?_claim_of_kept (hex : g.Exclusive) {claimed name : String} {force : Bool}
    (hbefore : g.guards.get? guard = some field)
    (hafter : (g.claim claimed name force).2.guards.get? guard = some field) :
    (g.claim claimed name force).2.cache.slot? field = g.cache.slot? field := by
  by_cases hacq : (g.cache.claim claimed force).1 = .acquired
  · have hheld : g.cache.Held field := (hex.held_iff field).2 ⟨guard, hbefore⟩
    have hne : claimed ≠ field := by
      rintro rfl
      exact Cache.not_held_of_acquired hacq hheld
    have hname : name ≠ guard := by
      rintro rfl
      rw [claim_of_acquired hacq, Table.get?_insert_self] at hafter
      exact hne (Option.some.inj hafter)
    have hclaimed : (g.cache.claim claimed force).2.slot? field = g.cache.slot? field := by
      rw [Cache.slot?_claim_of_acquired hacq, if_neg hne]
    rw [claim_of_acquired hacq]
    unfold drop
    split
    · exact hclaimed
    · next old hold =>
      -- the older guard of the name was for another field
      have hother : old ≠ field := by
        rintro rfl
        exact hname (hex.unique hold hbefore)
      rw [Cache.slot?_release, if_neg hother, hclaimed]
  · rw [claim_of_refused hacq]

/-- **As long as a guard lives no request changes its slot.** -/
theorem slot?_after_of_kept (hex : g.Exclusive) {request : Request} (ok : g.Permits request)
    (hbefore : g.guards.get? guard = some field)
    (hafter : (g.after request).guards.get? guard = some field) :
    (g.after request).cache.slot? field = g.cache.slot? field := by
  have hheld : g.cache.Held field := (hex.held_iff field).2 ⟨guard, hbefore⟩
  -- a guard that ends is not this one, so its field is another
  have hends : ∀ {name other : String}, g.guards.get? name = some other →
      (g.guards.erase name).get? guard = some field → other ≠ field := by
    rintro name other hname hkept rfl
    have : name = guard := hex.unique hname hbefore
    subst this
    simp [Table.get?_erase] at hkept
  cases request with
  | claim claimed name force => exact slot?_claim_of_kept hex hbefore hafter
  | finish name e =>
    simp only [after, finish] at hafter ⊢
    split at hafter
    · rfl
    · next other hname =>
      exact (Cache.slot?_store ..).trans (if_neg (hends hname hafter))
  | drop name =>
    simp only [after, drop] at hafter ⊢
    split at hafter
    · rfl
    · next other hname =>
      exact (Cache.slot?_release ..).trans (if_neg (hends hname hafter))
  | load _ => rfl
  | status _ => rfl
  | store other e =>
    have hne : other ≠ field := by
      rintro rfl
      exact ok (Cache.status_eq_computing_iff.2 hheld)
    exact (Cache.slot?_store ..).trans (if_neg hne)
  | forget other =>
    by_cases hother : other = field
    · subst hother
      simp only [after, Cache.forget_of_held hheld]
    · exact (Cache.slot?_forget ..).trans (if_neg hother)
  | expire time => exact Cache.slot?_expire_of_held hheld time
  | expireField other time =>
    by_cases hother : other = field
    · subst hother
      simp only [after, Cache.expireField_of_held hheld]
    · simp only [after, Cache.expireField]
      split
      · exact (Cache.slot?_forget ..).trans (if_neg hother)
      · rfl

/-- What a guard keeps is held through all requests. -/
theorem slot?_afterAll_of_kept : ∀ {requests : List Request} {g : Guarded}, g.Exclusive →
    g.PermitsAll requests → Keeps guard field g requests →
    (g.afterAll requests).guards.get? guard = some field
      ∧ (g.afterAll requests).cache.slot? field = g.cache.slot? field := by
  intro requests
  induction requests with
  | nil => exact fun _ _ hkept => ⟨hkept, rfl⟩
  | cons request requests ih =>
    intro g hex ok hkept
    obtain ⟨hlives, hslot⟩ := ih (exclusive_after hex ok.1) ok.2 hkept.2
    have hafter : (g.after request).guards.get? guard = some field := by
      cases requests with
      | nil => exact hkept.2
      | cons _ _ => exact hkept.2.1
    exact ⟨hlives, hslot.trans (slot?_after_of_kept hex ok.1 hkept.1 hafter)⟩

/-- A guard that ends unfinished frees its slot. -/
theorem slot?_after_of_givesUp (hex : g.Exclusive) {request : Request}
    (hlives : g.guards.get? guard = some field) (hends : g.GivesUp guard request) :
    (g.after request).cache.slot? field = (g.cache.slot? field).bind Slot.release := by
  cases request with
  | drop name =>
    obtain rfl : name = guard := hends
    simp only [after, drop, hlives, Cache.slot?_release, if_true]
  | claim claimed name force =>
    obtain ⟨rfl, hacq⟩ := hends
    have hne : claimed ≠ field := by
      rintro rfl
      exact Cache.not_held_of_acquired hacq ((hex.held_iff claimed).2 ⟨name, hlives⟩)
    simp only [after, claim_of_acquired hacq, drop, hlives, Cache.slot?_release, if_true,
      Cache.slot?_claim_of_acquired hacq, if_neg hne]
  | finish _ _ => exact hends.elim
  | load _ => exact hends.elim
  | status _ => exact hends.elim
  | store _ _ => exact hends.elim
  | forget _ => exact hends.elim
  | expire _ => exact hends.elim
  | expireField _ _ => exact hends.elim

/-- To release what a granted claim holds leads back to the slot that it
found. -/
theorem bind_release_of_acquired {c : Cache} {force : Bool}
    (hacq : (c.claim field force).1 = .acquired) :
    ((c.claim field force).2.slot? field).bind Slot.release = c.slot? field := by
  rw [Cache.slot?_claim_of_acquired hacq, if_pos rfl]
  have hfree := Cache.not_held_of_acquired hacq
  simp only [Cache.get?]
  cases hs : c.slot? field with
  | none => rfl
  | some s =>
    cases s with
    | computing previous => exact absurd ⟨previous, hs⟩ hfree
    | stored e => rfl

/-- The guard that had the name of a new one was for another field. -/
theorem slot?_claim_self (hex : g.Exclusive) {force : Bool}
    (hacq : (g.cache.claim field force).1 = .acquired) :
    (g.claim field guard force).2.cache.slot? field
      = (g.cache.claim field force).2.slot? field := by
  rw [claim_of_acquired hacq]
  unfold drop
  split
  · rfl
  · next old hold =>
    have hother : old ≠ field := by
      rintro rfl
      exact Cache.not_held_of_acquired hacq ((hex.held_iff old).2 ⟨guard, hold⟩)
    exact (Cache.slot?_release ..).trans (if_neg hother)

/-- **Roll-back is exact.**  Whatever is asked between a claim and the end of its
guard, to give the guard up puts back the slot that the claim found. -/
theorem slot?_of_givesUp (hex : g.Exclusive) {force : Bool}
    (hacq : (g.claim field guard force).1 = .acquired) {requests : List Request}
    (ok : (g.after (.claim field guard force)).PermitsAll requests)
    (hkept : Keeps guard field (g.after (.claim field guard force)) requests) {request : Request}
    (hends : ((g.after (.claim field guard force)).afterAll requests).GivesUp guard request) :
    (((g.after (.claim field guard force)).afterAll requests).after request).cache.slot? field
      = g.cache.slot? field := by
  rw [claim_answer] at hacq
  have hclaimed : (g.after (.claim field guard force)).Exclusive := exclusive_claim hex field guard force
  have hended : ((g.after (.claim field guard force)).afterAll requests).Exclusive :=
    exclusive_afterAll hclaimed ok
  obtain ⟨hlives, hslot⟩ := slot?_afterAll_of_kept hclaimed ok hkept
  calc (((g.after (.claim field guard force)).afterAll requests).after request).cache.slot? field
      = (((g.after (.claim field guard force)).afterAll requests).cache.slot? field).bind
          Slot.release := slot?_after_of_givesUp hended hlives hends
    _ = ((g.after (.claim field guard force)).cache.slot? field).bind Slot.release := by rw [hslot]
    _ = ((g.cache.claim field force).2.slot? field).bind Slot.release :=
        congrArg (·.bind Slot.release) (slot?_claim_self hex hacq)
    _ = g.cache.slot? field := bind_release_of_acquired hacq

end Kept

/-! ## §5. The theorem. -/

/-- **Readers see the last committed entry, and roll-back is exact.**  After any
requests the cache reads as a register that only stored, finished and forgotten
entries change; claims and guards that are given up are seen by no reader; a
guard that ends unfinished puts back the slot that its claim found; and what is
computed is neither forgotten nor evicted. -/
theorem reads_as_register {requests : List Request} (ok : Guarded.empty.PermitsAll requests) :
    let g := Guarded.empty.afterAll requests
    g.Shows (Register.empty.afterAll requests)
    ∧ (∀ field guard force other,
        (g.after (.claim field guard force)).cache.get? other = g.cache.get? other)
    ∧ (∀ guard other, (g.after (.drop guard)).cache.get? other = g.cache.get? other)
    ∧ (∀ field guard force, (g.claim field guard force).1 = .acquired →
        let claimed := g.after (.claim field guard force)
        ∀ later request, claimed.PermitsAll later → Keeps guard field claimed later →
          (claimed.afterAll later).GivesUp guard request →
          ((claimed.afterAll later).after request).cache.slot? field = g.cache.slot? field)
    ∧ ∀ field, g.cache.status field = .computing →
        g.after (.forget field) = g
        ∧ ∀ time, g.after (.expireField field time) = g
          ∧ (g.after (.expire time)).cache.slot? field = g.cache.slot? field := by
  intro g
  -- permitted requests keep the guards apart, and everything else rests on that
  have hex : g.Exclusive := exclusive_afterAll exclusive_empty ok
  refine ⟨?_, get?_claim g, get?_drop g, ?_, ?_⟩
  · exact shows_afterAll exclusive_empty ⟨fun _ => rfl, rfl⟩ ok
  · intro field guard force hacq claimed later request okLater hkept hends
    exact slot?_of_givesUp hex hacq okLater hkept hends
  · intro field hcomputing
    have hheld := Cache.status_eq_computing_iff.1 hcomputing
    refine ⟨?_, fun time => ⟨?_, Cache.slot?_expire_of_held hheld time⟩⟩
    · simp only [after, Cache.forget_of_held hheld]
    · simp only [after, Cache.expireField_of_held hheld]

/-- An old entry survives eviction while its field is computed again, and comes
back as it was when the computation is given up. -/
theorem old_entry_put_back :
    let e := Entry.ofValue (.int 1) 5
    let requests := [Request.store "f" e]
    let claimed := (Guarded.empty.afterAll requests).after (.claim "f" "a" true)
    let later := [Request.expire 100, .store "g" e, .claim "g" "b" true, .forget "f"]
    Guarded.empty.PermitsAll requests ∧ claimed.PermitsAll later
      ∧ ((claimed.afterAll later).after (.drop "a")).cache.slot? "f" = some (.stored e) := by
  intro e requests claimed later
  have ok : Guarded.empty.PermitsAll requests := by
    simp only [PermitsAll, Permits, requests]
    decide +kernel
  have okLater : claimed.PermitsAll later := by
    simp only [PermitsAll, Permits, later]
    decide +kernel
  have hkept : Keeps "a" "f" claimed later := by
    simp only [Keeps, later]
    decide +kernel
  refine ⟨ok, okLater, ?_⟩
  exact (reads_as_register ok).2.2.2.1 "f" "a" true rfl later (.drop "a") okLater hkept rfl

end Guarded

end LazyFields
