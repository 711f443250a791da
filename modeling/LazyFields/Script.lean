/-
  LazyFields.Script
  ────────────────────────────────
  **LOGIC AS DATA.**

  A script is logic that is written down: values, what a call is given, and
  questions to the session.  `Script.program` says what it means, so that the
  logic of a schema can be read from a file instead of being written in the
  host's language.
-/
import LazyFields.Logic

namespace LazyFields

/-- Logic that gives a value. -/
inductive Script where
  /-- The values of the references. -/
  | deps
  /-- The number of the call. -/
  | calls
  /-- The id of the instance. -/
  | id
  /-- The kind of the instance. -/
  | name
  /-- The sum of the values of the references, which are all ints. -/
  | sum
  | const (v : Value)
  /-- The value of one reference, or null. -/
  | dep (n : Nat)
  /-- The texts of the values of the references. -/
  | join (separator : String)
  | fail (e : Error)
  /-- One script for each call; the last one goes on. -/
  | seq (scripts : List Script)
  /-- One script after the other, up to an error; the value of the last. -/
  | all (scripts : List Script)
  | array (scripts : List Script)
  | field (field : String)
  | resolve (field : String)
  | compute (field : String)
  /-- Read a field as a native type. -/
  | get (type : Value.NativeType) (field : String)
  /-- Take the value of one reference as a native type, in the name of a
  field. -/
  | cast (type : Value.NativeType) (field : String) (n : Nat)
  | create (kind : String) (args : Args)
  | find (kind id : String)
  | trigger (field : String)
  /-- Store a value in the cache of the instance. -/
  | store (field : String) (data : Value)
  deriving Inhabited

namespace Script

/-! ## §1. What a call is given. -/

/-- A call of logic. -/
structure Call where
  /-- The instance. -/
  self : Ref
  /-- The values of the references. -/
  values : List Value
  /-- Which call of this logic it is, from one. -/
  number : Nat

/-- The sum of ints, which wraps; the first value that is none is named. -/
def sumOf : List Value → Int64 → Except Error Value
  | [], n => .ok (.int n)
  | .int m :: vs, n => sumOf vs (n + m)
  | v :: _, _ => .error (.failure ("not an int: " ++ v.typeName))

/-- The value of a reference, or null. -/
def Call.value (c : Call) (n : Nat) : Value := (c.values[n]?).getD .null

/-- Ask the session, as long as it runs. -/
def Call.session (c : Call) (op : Operation) : Program op.Answer := do
  Program.request (.live c.self.number)
  Program.request op

/-! ## §2. What a script means. -/

mutual

/-- The program of a script. -/
def program : Script → Call → Program Value
  | deps, c => pure (.array c.values)
  | calls, c => pure (.int (Int64.ofNat c.number))
  | id, c => pure (.string c.self.id)
  | name, c => pure (.string c.self.kind)
  | sum, c => .done (sumOf c.values 0)
  | const v, _ => pure v
  | dep n, c => pure (c.value n)
  | join separator, c => pure (.string (separator.intercalate (c.values.map Value.text)))
  | fail e, _ => .fail e
  | seq scripts, c => pick scripts (c.number - 1) c
  | all scripts, c => last scripts .null c
  | array scripts, c => do pure (.array (← each scripts c))
  | field f, c => .request (.field c.self.number f)
  | resolve f, c => c.session (.resolve c.self.number f)
  | compute f, c => do
      Program.request (.compute c.self.number f)
      pure .null
  | get type f, c => do
      let v : Value ← Program.request (.field c.self.number f)
      .done (v.cast c.self.kind f type)
  | cast type f n, c => .done ((c.value n).cast c.self.kind f type)
  | create kind args, c => do
      let r : Ref ← c.session (.create kind args)
      pure r.value
  | find kind ident, c => do
      let r : Ref ← c.session (.find kind ident)
      pure r.value
  | trigger f, c => do
      c.session (.trigger c.self.number f)
      pure .null
  | store f data, c => do
      Program.request (.store c.self.number f data)
      pure .null

/-- The script of the given index, or else the last one. -/
def pick : List Script → Nat → Call → Program Value
  | [], _, _ => pure .null
  | [s], _, c => s.program c
  | s :: _ :: _, 0, c => s.program c
  | _ :: s :: rest, n + 1, c => pick (s :: rest) n c

/-- One script after the other; the value of the last. -/
def last : List Script → Value → Call → Program Value
  | [], v, _ => pure v
  | s :: rest, _, c => do
      let v ← s.program c
      last rest v c

/-- The values of all scripts. -/
def each : List Script → Call → Program (List Value)
  | [], _ => pure []
  | s :: rest, c => do
      let v ← s.program c
      let vs ← each rest c
      pure (v :: vs)

end

/-- A script as the logic of a field. -/
def computeLogic (s : Script) : ComputeLogic := fun self values number =>
  s.program ⟨self, values, number⟩

/-- A script as id logic; a value that is no text is turned into one. -/
def idLogic (s : Script) : IdLogic := fun self number => do
  let v ← s.program ⟨self, [], number⟩
  pure v.text

end Script

/-! ## §3. Before construction. -/

/-- What a script does with the arguments of a constructor. -/
inductive InitScript where
  /-- Add the arguments that are missing. -/
  | default (args : Args)
  | set (args : Args)
  | remove (names : List String)
  /-- Answer with an instance, if it is there. -/
  | existing (kind id : String)
  /-- Construct an instance, perhaps to be an argument. -/
  | create (kind : String) (args : Args) (arg : Option String)
  | fail (e : Error)

namespace InitScript

/-- Add arguments, in place of those of the same name if they are given
before. -/
def overlay (below above : Args) : Args :=
  above.entries.foldl (fun args e => args.insert e.1 e.2) below

/-- The program of some actions, one after the other. -/
def program : List InitScript → Args → Program Prepared
  | [], args => pure (.proceed args)
  | default more :: rest, args => program rest (overlay more args)
  | set more :: rest, args => program rest (overlay args more)
  | remove names :: rest, args => program rest (names.foldl Table.erase args)
  | existing kind id :: rest, args =>
      .ask (.find kind id) fun
        | .ok r => pure (.existing r)
        | .error _ => program rest args
  | create kind given arg :: rest, args => do
      let r : Ref ← Program.request (.create kind given)
      program rest (match arg with
        | some name => args.insert name r.value
        | none => args)
  | fail e :: _, _ => .fail e

/-- Some actions as the logic before construction. -/
def initLogic (actions : List InitScript) : InitLogic := fun args _ => program actions args

end InitScript

end LazyFields
