/-
  LazyFields.Logic
  ────────────────────────────────
  **THE LOGIC OF RESOURCES.**

  Logic is what the owner of a resource binds to it: how a field is computed,
  what happens before construction, which id an instance has.  It is a
  `Program`: a result, or a question to the session and what to do with each
  answer.  Logic that asks nothing is `done` at once.

  Logic is told how often it has been called, so that it may answer the same
  question differently each time.
-/
import LazyFields.Operation

namespace LazyFields

/-! ## §1. Programs. -/

/-- A computation that may ask the session. -/
inductive Program (α : Type) where
  | done (result : Except Error α)
  | ask (op : Operation) (next : Except Error op.Answer → Program α)

namespace Program

variable {α β : Type}

/-- Ask one question; its answer is the result. -/
def request (op : Operation) : Program op.Answer := .ask op .done

/-- End with an error. -/
def fail (e : Error) : Program α := .done (.error e)

/-- Go on with the result of a program, unless it is an error. -/
def andThen : Program α → (α → Program β) → Program β
  | done (.ok a), f => f a
  | done (.error e), _ => done (.error e)
  | ask op next, f => ask op fun r => (next r).andThen f

instance : Monad Program where
  pure a := .done (.ok a)
  bind := andThen

/-- A program that asks nothing. -/
def IsPassive (p : Program α) : Prop := ∃ r, p = done r

end Program

/-! ## §2. What can be bound. -/

/-- How a field is computed, from the instance, the values of the references
in their order, and the number of the call. -/
abbrev ComputeLogic := Ref → List Value → Nat → Program Value

/-- Which id an instance has, from the instance and the number of the call. -/
abbrev IdLogic := Ref → Nat → Program String

/-- What is done with the arguments of a constructor. -/
inductive Prepared where
  /-- Construct an instance from these arguments. -/
  | proceed (args : Args)
  /-- Answer with this instance. -/
  | existing (inst : Ref)

/-- What happens before construction, from the arguments and the number of the
call. -/
abbrev InitLogic := Args → Nat → Program Prepared

end LazyFields
