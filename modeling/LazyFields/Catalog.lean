/-
  LazyFields.Catalog
  ────────────────────────────────
  **THE KINDS OF A SESSION.**

  A catalog holds kinds by name and knows which names are packs.  A kind is
  looked up by its name; a name that starts with a pack falls back to the rest
  of it.  Loading a schema adds kinds and extends the known ones, as merging
  schemas does, and never takes logic away.
-/
import LazyFields.Kind
import LazyFields.Schema.Json
import LazyFields.Schema.Merge

namespace LazyFields

/-- Kinds by name, and the packs whose kinds are among them. -/
structure Catalog where
  kinds : Table Kind
  packs : NameSet
  deriving Inhabited

namespace Catalog

/-- The catalog without kinds. -/
def empty : Catalog := ⟨∅, ∅⟩

instance : EmptyCollection Catalog := ⟨empty⟩

/-! ## §1. Loading. -/

/-- Add a resource under its key in a schema: a new kind, or what it adds to
the known one. -/
def loadResource (kinds : Table Kind) (id : String) (info : ResourceSpec) : Table Kind :=
  kinds.insert id
    (match kinds.get? id with
    | some k => { k with info := k.info.merge info }
    | none => Kind.ofInfo info)

/-- Add the resources of a schema. -/
def load (r : Catalog) (s : Schema) : Catalog :=
  { r with kinds := s.resources.entries.foldl (fun ks e => loadResource ks e.1 e.2) r.kinds }

/-- Add the resources of a pack; names that start with the pack then fall back
to them. -/
def loadPack (r : Catalog) (pack : String) (s : Schema) : Catalog :=
  ({ r with packs := r.packs.insert pack () } : Catalog).load s

/-- Add the resources of a schema in its JSON form. -/
def loadText (r : Catalog) (text : String) : Except Error Catalog :=
  (Schema.ofText text).map r.load

/-- The catalog of one schema. -/
def ofSchema (s : Schema) : Catalog := empty.load s

/-- Add a kind in place of any other of its name. -/
def register (r : Catalog) (k : Kind) : Catalog :=
  { r with kinds := r.kinds.insert k.name k }

/-! ## §2. Looking up. -/

/-- The name of a kind without its pack, if it starts with one. -/
def withoutPack? (r : Catalog) (name : String) : Option String :=
  match Text.splitFirst? '.' name with
  | some (pack, rest) => if r.packs.contains pack then some rest else none
  | none => none

/-- The kind of a name. -/
def lookup? (r : Catalog) (name : String) : Option Kind :=
  (r.kinds.get? name).or ((r.withoutPack? name).bind r.kinds.get?)

/-- The kind of a name that has to be known. -/
def get (r : Catalog) (name : String) : Except Error Kind :=
  match r.lookup? name with
  | some k => .ok k
  | none => .error (.unknownResource name)

/-- The key under which the kind of a name is changed: its own name. -/
def keyOf (r : Catalog) (name : String) : Except Error String := do
  let k ← r.get name
  if r.kinds.contains k.name then .ok k.name else .error (.unknownResource k.name)

/-- Change the kind of a name. -/
def modifyKind (r : Catalog) (name : String) (f : Kind → Except Error Kind) :
    Except Error Catalog := do
  let key ← r.keyOf name
  match r.kinds.get? key with
  | none => .error (.unknownResource key)
  | some k => do
      let k ← f k
      .ok { r with kinds := r.kinds.insert key k }

/-- Bind the logic of a computed field. -/
def bind (r : Catalog) (name field : String) (logic : ComputeLogic) : Except Error Catalog :=
  r.modifyKind name fun k => k.bind field logic

/-- Whether there is a kind of a name. -/
def has (r : Catalog) (name : String) : Bool := (r.lookup? name).isSome

/-- The names of all kinds. -/
def names (r : Catalog) : List String := r.kinds.keys

/-- How many kinds there are. -/
def count (r : Catalog) : Nat := r.kinds.size

/-- The schema of all kinds. -/
def schema (r : Catalog) : Schema := ⟨r.kinds.map Kind.info⟩

theorem has_eq_isOk_get (r : Catalog) (name : String) : r.has name = (r.get name).isOk := by
  simp only [has, get]
  cases r.lookup? name <;> rfl

end Catalog

end LazyFields
