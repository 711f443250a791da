/-
  LazyFields.Operation
  ────────────────────────────────
  **WHAT CAN BE ASKED OF A SESSION.**

  An `Operation` is a question to a session, and `Operation.Answer` says of
  each what kind of answer it has.  The owner of a session asks them from
  outside; the logic of a resource may ask them while it runs, so that the
  same type serves both.

  An instance is known by its number, which tells two instances of one kind
  and id apart: an instance is numbered before it has an id.
-/
import LazyFields.Value

namespace LazyFields

/-- An instance as others hold it. -/
structure Ref where
  /-- Its number in the order of construction. -/
  number : Nat
  kind : String
  /-- Its id; empty until it has one. -/
  id : String
  deriving DecidableEq, Repr, Inhabited

/-- The instance as a value. -/
def Ref.value (r : Ref) : Value := .resource r.kind r.id

/-- The name of an instance among all instances of a session. -/
def instanceAddress (kind id : String) : String := kind ++ "\x00" ++ id

/-- A question to a session.  Instances are given by their numbers. -/
inductive Operation where
  /-- Does the session still run? -/
  | live (inst : Nat)
  /-- Watch the dependencies of a field, so that it follows them. -/
  | register (inst : Nat) (field : String)
  /-- Settle a field, unless it is. -/
  | compute (inst : Nat) (field : String)
  /-- Compute a field again. -/
  | recompute (inst : Nat) (field : String)
  /-- Read a field. -/
  | field (inst : Nat) (field : String)
  /-- Register, compute and read a field. -/
  | resolve (inst : Nat) (field : String)
  /-- Settle a field and run its watchers. -/
  | trigger (inst : Nat) (field : String)
  /-- Run the watchers of a field, known by its name in the watch graph. -/
  | fire (address : String)
  /-- Construct an instance, or find the one it would be equal to. -/
  | create (kind : String) (args : Args)
  /-- The instance of a kind and id. -/
  | find (kind id : String)
  /-- The first instance of a kind whose field reads as the given value. -/
  | findWhere (kind field : String) (value : Value)
  /-- All instances of a kind. -/
  | list (kind : String)
  /-- Report a field now, if it is settled, and whenever it is triggered. -/
  | watch (inst : Nat) (field watcher : String)
  /-- Compute a second field again whenever the first one is triggered. -/
  | watchCompute (inst : Nat) (field : String) (follower : Nat) (followerField : String)
  /-- Stop all watches of a watcher. -/
  | unregister (watcher : String)
  /-- Forget computed fields that are older than the given age in
  milliseconds. -/
  | expire (age : Nat)
  /-- Resolve one field of many instances. -/
  | resolveAll (insts : List Nat) (field : String) (failFast : Bool)
  /-- Resolve a field, again and again while it is not ready. -/
  | await (inst : Nat) (field : String) (retries : Nat)
  /-- Store a value in a field, whatever its type. -/
  | store (inst : Nat) (field : String) (data : Value)
  deriving Repr

/-- The kind of answer to an operation that succeeds. -/
@[reducible] def Operation.Answer : Operation → Type
  | field .. | resolve .. | await .. => Value
  | create .. | find .. | findWhere .. => Ref
  | list .. => List Ref
  | fire .. | expire .. => Nat
  | resolveAll .. => List (Except Error Value)
  | live .. | register .. | compute .. | recompute .. | trigger .. | watch .. | watchCompute ..
  | unregister .. | store .. => Unit

end LazyFields
