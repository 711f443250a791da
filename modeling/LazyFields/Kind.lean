/-
  LazyFields.Kind
  ────────────────────────────────
  **RESOURCE KINDS.**

  A kind is a resource of a schema with the logic bound to it.  Only computed
  fields can have logic (`Kind.bind`); a kind without id logic has one shared
  instance, whose id is empty.
-/
import LazyFields.Logic
import LazyFields.Schema.Basic
import LazyFields.Text.Quoted

namespace LazyFields

/-- A resource and its logic. -/
structure Kind where
  info : ResourceSpec
  /-- The logic of computed fields. -/
  computes : Table ComputeLogic
  init : Option InitLogic
  idLogic : Option IdLogic
  deriving Inhabited

namespace Kind

/-- A kind without logic. -/
def ofInfo (info : ResourceSpec) : Kind := ⟨info, ∅, none, none⟩

/-- The name of the kind: the id of its resource. -/
def name (k : Kind) : String := k.info.id

/-- What is said to logic for a field that is never computed. -/
def staticFieldText : String :=
  "static fields are supplied at construction and cannot be computed"

/-- Bind the logic of a computed field. -/
def bind (k : Kind) (field : String) (logic : ComputeLogic) : Except Error Kind :=
  match k.info.field? field with
  | none => .error (.unknownField k.name field)
  | some info =>
      if info.isStatic then .error (.semantic k.name (some field) staticFieldText)
      else .ok { k with computes := k.computes.insert field logic }

/-- Set what happens before construction. -/
def withInit (k : Kind) (logic : InitLogic) : Kind := { k with init := some logic }

/-- Set which ids instances have. -/
def withId (k : Kind) (logic : IdLogic) : Kind := { k with idLogic := some logic }

/-- The logic of a field. -/
def compute? (k : Kind) (field : String) : Option ComputeLogic := k.computes.get? field

/-- The computed fields that have no logic, sorted. -/
def unbound (k : Kind) : List String :=
  ((k.info.fields.values.filter fun f => !f.isStatic && !k.computes.contains f.name).map
    FieldSpec.name).mergeSort

/-- The text that shows a kind and what is bound to it. -/
def summary (k : Kind) : String :=
  "ResourceKind \x7b name: " ++ Text.quoted k.name
    ++ ", bound: [" ++ ", ".intercalate (k.computes.keys.map Text.quoted)
    ++ "], init: " ++ toString k.init.isSome
    ++ ", id_fn: " ++ toString k.idLogic.isSome ++ " \x7d"

end Kind

end LazyFields
