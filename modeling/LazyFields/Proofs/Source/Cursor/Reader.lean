/-
  LazyFields.Proofs.Source.Cursor.Reader
  ────────────────────────────────
  **READING WITH A CURSOR.**

  The readers of texts and tokens take their input from its head.  Here the input
  stays whole and a cursor moves over it, and a reader may do three things wrong:
  look outside of the input, step back from its start, and start over without
  having moved on.  Each of them is a fault, which is neither an answer nor a
  refusal.

  Loops and recursive calls are written with `again`.  It lets the body start over
  only at a place further on and within the input, so a reader whose loops do not
  move on ends in a fault as well, and every reader ends.
-/
import LazyFields.Error

namespace LazyFields.Source.Cursor

/-- What a reader can do wrong. -/
inductive Fault where
  /-- It looks at a place outside of the input. -/
  | outside
  /-- It steps back from the start. -/
  | before
  /-- It starts over without having moved on. -/
  | stuck
  deriving DecidableEq, Repr

/-- Why a reader stops without a value. -/
inductive Stop where
  | refused (e : Error)
  | fault (f : Fault)

/-- A reader; `σ` tells where the cursor stands. -/
abbrev Reader (σ α : Type) := StateT σ (Except Stop) α

section Readers

variable {σ α β : Type}

/-- Refuse the input. -/
def refuse (e : Error) : Reader σ α := throw (.refused e)

/-- Do what must not be done. -/
def fail (f : Fault) : Reader σ α := throw (.fault f)

/-- Read with the body, which may start over where the cursor stands further on,
`size` being the end of the input. -/
def again (place : σ → Nat) (size : Nat) (body : Reader σ α → Reader σ α) (s : σ) :
    Except Stop (α × σ) :=
  body (fun s' => if _h : place s < place s' ∧ place s' ≤ size then again place size body s'
    else (fail .stuck : Reader σ α) s') s
termination_by size - place s
decreasing_by omega

/-- The body's way to start over, for a reader that started at `s`. -/
def startOver (place : σ → Nat) (size : Nat) (body : Reader σ α → Reader σ α) (s : σ) :
    Reader σ α := fun s' =>
  if place s < place s' ∧ place s' ≤ size then again place size body s'
    else (fail .stuck : Reader σ α) s'

theorem again_eq (place : σ → Nat) (size : Nat) (body : Reader σ α → Reader σ α) (s : σ) :
    again place size body s = body (startOver place size body s) s := by
  rw [again]
  rfl

theorem startOver_of_lt {place : σ → Nat} {size : Nat} {body : Reader σ α → Reader σ α}
    {s s' : σ} (hlt : place s < place s') (hle : place s' ≤ size) :
    startOver place size body s s' = again place size body s' := if_pos ⟨hlt, hle⟩

/-- What a reader answers, if nothing goes wrong. -/
def answer? (m : Reader σ α) (s : σ) : Option (Except Error α) :=
  match m s with
  | .ok (a, _) => some (.ok a)
  | .error (.refused e) => some (.error e)
  | .error (.fault _) => none

/-! ## Running a reader, step by step. -/

theorem bind_of_ok {m : Reader σ α} {s s' : σ} {a : α} (h : m s = .ok (a, s'))
    (k : α → Reader σ β) : (m >>= k) s = k a s' := by
  show (m s).bind _ = _
  rw [h]
  rfl

theorem bind_of_error {m : Reader σ α} {s : σ} {e : Stop} (h : m s = .error e)
    (k : α → Reader σ β) : (m >>= k) s = .error e := by
  show (m s).bind _ = _
  rw [h]
  rfl

theorem bind_get (k : σ → Reader σ β) (s : σ) : (get >>= k) s = k s s := rfl

theorem bind_modify (f : σ → σ) (k : Unit → Reader σ β) (s : σ) :
    (modify f >>= k) s = k () (f s) := rfl

theorem bind_pure_of_ok {m : Reader σ α} {s s' : σ} {a : α} (h : m s = .ok (a, s')) (f : α → β) :
    (m >>= fun a => pure (f a)) s = .ok (f a, s') := bind_of_ok h _

end Readers

end LazyFields.Source.Cursor
