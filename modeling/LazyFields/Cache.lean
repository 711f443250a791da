/-
  LazyFields.Cache
  ────────────────────────────────
  **THE FIELD CACHE OF AN INSTANCE.**

  Every field has a slot: unset, stored, or computing.  Claiming a slot for a
  computation hands out a guard for it, and as long as the guard lives a
  second claim is refused.  A slot that is computing keeps the entry it had
  before: readers go on seeing it, and a guard that is given up unfinished
  puts it back.

  A guard is nothing but the right to finish or release its field, so here it
  is the field's name; `Guarded` adds the names of the guards that live.
-/
import LazyFields.Value

namespace LazyFields

/-! ## §1. Entries and slots. -/

/-- What a computation or a constructor left in a field. -/
structure Entry where
  /-- The value; null if there is an error. -/
  data : Value
  /-- Whether the value may be used. -/
  valid : Bool
  error : Option Error
  /-- When the entry was stored, in milliseconds of Unix time. -/
  timestamp : Int
  deriving Repr, Inhabited

namespace Entry

/-- An entry with a usable value. -/
def ofValue (data : Value) (now : Int) : Entry := ⟨data, true, none, now⟩

/-- An entry with an error. -/
def ofError (e : Error) (now : Int) : Entry := ⟨.null, false, some e, now⟩

/-- The entry as the result of reading the field; an entry that is neither
valid nor an error gives none. -/
def result? (e : Entry) : Option (Except Error Value) :=
  match e.error with
  | some err => some (.error err)
  | none => if e.valid then some (.ok e.data) else none

/-- Whether the entry is valid or an error, so that nothing is left to
compute. -/
def isSettled (e : Entry) : Bool := e.valid || e.error.isSome

end Entry

/-- What the cache holds for a field that is not unset. -/
inductive Slot where
  /-- A computation holds the field; readers see the entry from before. -/
  | computing (previous : Option Entry)
  | stored (entry : Entry)
  deriving Repr, Inhabited

/-- The state of a field as others see it. -/
inductive Status where
  | unset
  | computing
  | valid
  | error
  deriving DecidableEq, Repr

/-- The name of a status. -/
def Status.name : Status → String
  | unset => "Unset"
  | computing => "Computing"
  | valid => "Valid"
  | error => "Error"

namespace Slot

/-- The entry that readers see. -/
def seen : Slot → Option Entry
  | computing previous => previous
  | stored entry => some entry

/-- The state as others see it. -/
def status : Slot → Status
  | computing _ => .computing
  | stored entry =>
      if entry.error.isSome then .error else if entry.valid then .valid else .unset

/-- What is left once the guard is given up unfinished: the entry from
before. -/
def release : Slot → Option Slot
  | computing previous => previous.map stored
  | stored entry => some (stored entry)

/-- What is left once the entry is forgotten; a computation is not
disturbed. -/
def forget : Slot → Option Slot
  | computing previous => some (computing previous)
  | stored _ => none

/-- Whether an entry is stored that is older than the given time. -/
def isStale (time : Int) : Slot → Bool
  | stored entry => entry.timestamp < time
  | computing _ => false

/-- Whether an entry is stored. -/
def isStored : Slot → Bool
  | stored _ => true
  | computing _ => false

end Slot

/-! ## §2. Caches. -/

/-- The slots of the fields; a field without one is unset. -/
structure Cache where
  slots : Table Slot
  deriving Repr, Inhabited

/-- The answer to a claim. -/
inductive Claim where
  /-- The caller holds the field now. -/
  | acquired
  /-- Somebody else holds it. -/
  | busy
  /-- There is nothing to compute. -/
  | ready (entry : Entry)
  deriving Repr

namespace Cache

/-- The cache in which nothing is stored. -/
def empty : Cache := ⟨∅⟩

instance : EmptyCollection Cache := ⟨empty⟩

/-- The slot of a field. -/
def slot? (c : Cache) (field : String) : Option Slot := c.slots.get? field

/-- Change what a field holds. -/
def setSlot (c : Cache) (field : String) (s : Option Slot) : Cache := ⟨c.slots.set field s⟩

/-- The current entry of a field; while it is computed, the one from
before. -/
def get? (c : Cache) (field : String) : Option Entry := (c.slot? field).bind Slot.seen

/-- The result of reading a field, if it has one. -/
def result? (c : Cache) (field : String) : Option (Except Error Value) :=
  (c.get? field).bind Entry.result?

/-- The state of a field. -/
def status (c : Cache) (field : String) : Status :=
  ((c.slot? field).map Slot.status).getD .unset

/-- Store an entry, whatever the field held. -/
def store (c : Cache) (field : String) (e : Entry) : Cache := c.setSlot field (some (.stored e))

/-- Forget the entry of a field. -/
def forget (c : Cache) (field : String) : Cache :=
  c.setSlot field ((c.slot? field).bind Slot.forget)

/-- Claim a field for computation.  Unless forced, a settled entry is answered
instead; a forced claim keeps it visible until the new one is there. -/
def claim (c : Cache) (field : String) (force : Bool) : Claim × Cache :=
  match c.slot? field with
  | some (.computing _) => (.busy, c)
  | none => (.acquired, c.setSlot field (some (.computing none)))
  | some (.stored e) =>
      if !force && e.isSettled then (.ready e, c)
      else (.acquired, c.setSlot field (some (.computing (some e))))

/-- Finish a computation: its guard stores the entry. -/
def finish (c : Cache) (field : String) (e : Entry) : Cache := c.store field e

/-- Give up a computation: its guard puts the entry from before back. -/
def release (c : Cache) (field : String) : Cache :=
  c.setSlot field ((c.slot? field).bind Slot.release)

/-- Forget every stored entry older than the given time; the names of the
fields that had one. -/
def expire (c : Cache) (time : Int) : List String × Cache :=
  ((c.slots.filter fun _ s => s.isStale time).keys, ⟨c.slots.filter fun _ s => !s.isStale time⟩)

/-- Forget the entry of one field if it is older than the given time, and say
whether it was. -/
def expireField (c : Cache) (field : String) (time : Int) : Bool × Cache :=
  if (c.slot? field).any (Slot.isStale time) then (true, c.forget field) else (false, c)

/-- The fields with a stored entry, by name. -/
def stored (c : Cache) : List String := (c.slots.filter fun _ s => s.isStored).keys

/-! ### What each operation does to the slots. -/

/-- **Caches are equal when their slots are.** -/
theorem ext_slot? {c d : Cache} (h : ∀ field, c.slot? field = d.slot? field) : c = d := by
  obtain ⟨s⟩ := c
  obtain ⟨t⟩ := d
  exact congrArg Cache.mk (Table.ext_get? h)

@[simp] theorem slot?_empty (field : String) : (∅ : Cache).slot? field = none := rfl

theorem slot?_setSlot (c : Cache) (field other : String) (s : Option Slot) :
    (c.setSlot field s).slot? other = if field = other then s else c.slot? other :=
  Table.get?_set c.slots field other s

theorem slot?_store (c : Cache) (field other : String) (e : Entry) :
    (c.store field e).slot? other
      = if field = other then some (.stored e) else c.slot? other :=
  slot?_setSlot ..

theorem slot?_forget (c : Cache) (field other : String) :
    (c.forget field).slot? other
      = if field = other then (c.slot? field).bind Slot.forget else c.slot? other :=
  slot?_setSlot ..

theorem slot?_release (c : Cache) (field other : String) :
    (c.release field).slot? other
      = if field = other then (c.slot? field).bind Slot.release else c.slot? other :=
  slot?_setSlot ..

theorem slot?_expire (c : Cache) (time : Int) (field : String) :
    (c.expire time).2.slot? field = (c.slot? field).filter fun s => !s.isStale time :=
  Table.get?_filter _ c.slots field

end Cache

/-! ## §3. Caches with named guards. -/

/-- A cache and the guards that live, by the names their owners gave them. -/
structure Guarded where
  cache : Cache
  /-- The field of each guard. -/
  guards : Table String
  deriving Repr, Inhabited

namespace Guarded

/-- Nothing stored, nothing claimed. -/
def empty : Guarded := ⟨∅, ∅⟩

/-- Give up a guard, if it lives. -/
def drop (g : Guarded) (guard : String) : Bool × Guarded :=
  match g.guards.get? guard with
  | none => (false, g)
  | some field => (true, ⟨g.cache.release field, g.guards.erase guard⟩)

/-- Finish the computation of a guard, if it lives. -/
def finish (g : Guarded) (guard : String) (e : Entry) : Bool × Guarded :=
  match g.guards.get? guard with
  | none => (false, g)
  | some field => (true, ⟨g.cache.finish field e, g.guards.erase guard⟩)

/-- Claim a field and keep the guard under a name.  A guard that had the name
before is given up, after the claim. -/
def claim (g : Guarded) (field guard : String) (force : Bool) : Claim × Guarded :=
  match g.cache.claim field force with
  | (.acquired, cache) =>
      let dropped := ({ g with cache } : Guarded).drop guard
      (.acquired, { dropped.2 with guards := dropped.2.guards.insert guard field })
  | (answer, cache) => (answer, { g with cache })

end Guarded

end LazyFields
