/-
  LazyFields.Session.Action
  ────────────────────────────────
  **STEPS OF A SESSION.**

  An `Action` changes the session and ends with a result or an error; what it
  changed before an error stays.  It has no answer at all if it nests deeper
  than it is allowed to, or speaks of an instance that was never constructed.

  `Performer` is how an action performs an operation within itself.
-/
import LazyFields.Session.State

namespace LazyFields

/-- A step of a session. -/
abbrev Action := ExceptT Error (StateT Session Option)

/-- How operations are performed. -/
abbrev Performer := (op : Operation) → Action op.Answer

namespace Action

variable {α : Type}

/-- No answer. -/
def stuck : Action α := ExceptT.mk fun _ => none

/-- A result or an error. -/
def ofResult (r : Except Error α) : Action α := ExceptT.mk (pure r)

/-- Perform an action and go on after its error. -/
def attempt (a : Action α) : Action (Except Error α) := ExceptT.lift a.run

/-- Perform an action whatever comes of it. -/
def ignore (a : Action α) : Action Unit := do
  let _ ← attempt a

/-- What an action does to a session. -/
def runOn (a : Action α) (s : Session) : Option (Except Error α × Session) := a.run.run s

@[simp] theorem runOn_pure (a : α) (s : Session) :
    (pure a : Action α).runOn s = some (.ok a, s) := rfl

@[simp] theorem runOn_throw (e : Error) (s : Session) :
    (throw e : Action α).runOn s = some (.error e, s) := rfl

@[simp] theorem runOn_ofResult (r : Except Error α) (s : Session) :
    (ofResult r).runOn s = some (r, s) := rfl

@[simp] theorem runOn_stuck (s : Session) : (stuck : Action α).runOn s = none := rfl

theorem runOn_bind {β : Type} (a : Action α) (f : α → Action β) (s : Session) :
    (a >>= f).runOn s =
      match a.runOn s with
      | none => none
      | some (.ok x, t) => (f x).runOn t
      | some (.error e, t) => some (.error e, t) := by
  simp only [runOn, ExceptT.run_bind, StateT.run_bind]
  cases h : a.run.run s with
  | none => rfl
  | some p =>
    obtain ⟨r, t⟩ := p
    cases r <;> rfl

theorem runOn_attempt (a : Action α) (s : Session) :
    (attempt a).runOn s = (a.runOn s).map fun p => (.ok p.1, p.2) := by
  simp only [runOn, attempt, ExceptT.run_lift, StateT.run_map]
  rfl

/-- What was attempted ended in the same session. -/
theorem runOn_of_attempt {a : Action α} {s t : Session} {r : Except Error (Except Error α)}
    (h : (attempt a).runOn s = some (r, t)) : ∃ r', r = .ok r' ∧ a.runOn s = some (r', t) := by
  rw [runOn_attempt] at h
  obtain ⟨p, hp, heq⟩ := Option.map_eq_some_iff.1 h
  cases heq
  exact ⟨p.1, rfl, hp⟩

end Action

/-- Run a program whose questions the session answers. -/
def Program.run {α : Type} (call : Performer) : Program α → Action α
  | done r => Action.ofResult r
  | ask op next => do
      let answer ← Action.attempt (call op)
      (next answer).run call

/-! ## What actions see and change. -/

namespace Session

open LazyFields.Action

/-- The instance of a number. -/
def getInstance (n : Nat) : Action Instance := do
  match (← get).instance? n with
  | some i => pure i
  | none => stuck

/-- The declaration of a field of an instance. -/
def declared (n : Nat) (field : String) : Action FieldSpec := do
  let i ← getInstance n
  match i.kind.info.field? field with
  | some info => pure info
  | none => throw (.unknownField i.kind.name field)

/-- Go on only while the session runs. -/
def requireLive (n : Nat) : Action Unit := do
  let i ← getInstance n
  if (← get).live then pure ()
  else throw (.failure ("runtime of \"" ++ i.kind.name ++ "\" was dropped"))

/-- Change the cache of an instance. -/
def onCache {α : Type} (n : Nat) (f : Cache → α × Cache) : Action α := do
  let i ← getInstance n
  let (a, cache) := f i.cache
  modify (·.setCache n cache)
  pure a

/-- Store an entry. -/
def storeEntry (n : Nat) (field : String) (e : Entry) : Action Unit :=
  onCache n fun c => ((), c.store field e)

/-- Put back what a claimed field held before. -/
def releaseField (n : Nat) (field : String) : Action Unit :=
  onCache n fun c => ((), c.release field)

/-- Write down what is called. -/
def note (e : Event) : Action Unit := modify (·.record e)

end Session

end LazyFields
