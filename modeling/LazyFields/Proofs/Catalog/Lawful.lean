/-
  LazyFields.Proofs.Catalog.Lawful
  ────────────────────────────────
  **CATALOGS WHOSE REFERENCES LEAD SOMEWHERE.**

  What sessions rely on is not the text of a schema but a few facts about its
  catalog: every reference names a field of a known kind, static fields refer
  to nothing, and there is a rank that grows from each field to those that
  refer to it.  `Catalog.Lawful` collects them.

  The watch graph and the table of published instances know fields and
  instances by texts that are glued together with a separator.  As long as
  names are free of it, the glue can be undone:

    · `instanceAddress_inj`, `fieldAddress_inj`
-/
import LazyFields.Catalog
import LazyFields.Operation
import LazyFields.Schema.Cycles
import LazyFields.WatchGraph

namespace LazyFields

/-! ## §1. Names and addresses. -/

/-- A name is not empty, and the separator of addresses does not occur in it. -/
def IsName (name : String) : Prop := name ≠ "" ∧ '\x00' ∉ name.toList

instance (name : String) : Decidable (IsName name) := inferInstanceAs (Decidable (_ ∧ _))

theorem append_separator_inj {a a' b b' : String} (h : '\x00' ∉ a.toList)
    (h' : '\x00' ∉ a'.toList)
    (heq : a ++ "\x00" ++ b = a' ++ "\x00" ++ b') : a = a' ∧ b = b' := by
  have hlist : a.toList ++ '\x00' :: b.toList = a'.toList ++ '\x00' :: b'.toList := by
    simpa using congrArg String.toList heq
  -- both sides are cut at their first separator
  have hcut := congrArg (Text.cutFirst '\x00') hlist
  rw [Text.cutFirst_append h, Text.cutFirst_append h'] at hcut
  simpa [String.toList_inj] using hcut

theorem separator_append_inj {a a' b b' : String} (h : '\x00' ∉ b.toList)
    (h' : '\x00' ∉ b'.toList)
    (heq : a ++ "\x00" ++ b = a' ++ "\x00" ++ b') : a = a' ∧ b = b' := by
  have hlist : b.toList.reverse ++ '\x00' :: a.toList.reverse
      = b'.toList.reverse ++ '\x00' :: a'.toList.reverse := by
    have := congrArg (fun t => t.toList.reverse) heq
    simpa using this
  have hb : '\x00' ∉ b.toList.reverse := by simpa using h
  have hb' : '\x00' ∉ b'.toList.reverse := by simpa using h'
  have hcut := congrArg (Text.cutFirst '\x00') hlist
  rw [Text.cutFirst_append hb, Text.cutFirst_append hb'] at hcut
  simp only [Option.some.injEq, Prod.mk.injEq, List.reverse_inj, String.toList_inj] at hcut
  exact ⟨hcut.2, hcut.1⟩

/-- **An instance is known by its kind and id,** whatever the id is. -/
theorem instanceAddress_inj {kind kind' id id' : String} (h : '\x00' ∉ kind.toList)
    (h' : '\x00' ∉ kind'.toList) (heq : instanceAddress kind id = instanceAddress kind' id') :
    kind = kind' ∧ id = id' :=
  append_separator_inj h h' heq

/-- **A field is known by its kind, the id of its instance, and its name.** -/
theorem fieldAddress_inj {kind kind' id id' field field' : String} (h : '\x00' ∉ kind.toList)
    (h' : '\x00' ∉ kind'.toList) (hf : '\x00' ∉ field.toList) (hf' : '\x00' ∉ field'.toList)
    (heq : fieldAddress kind id field = fieldAddress kind' id' field') :
    kind = kind' ∧ id = id' ∧ field = field' := by
  obtain ⟨hleft, hfield⟩ := separator_append_inj hf hf' heq
  obtain ⟨hkind, hid⟩ := append_separator_inj h h' hleft
  exact ⟨hkind, hid, hfield⟩

/-! ## §2. Fields of a catalog. -/

/-- The kind and the field that a reference in a kind names. -/
def referent (kind reference : String) : String × String :=
  match splitReference reference with
  | (none, field) => (kind, field)
  | (some other, field) => (other, field)

namespace Catalog

/-- The field of a kind, both by name. -/
def field? (c : Catalog) (p : String × String) : Option FieldSpec :=
  (c.kinds.get? p.1).bind fun k => k.info.field? p.2

theorem field?_of_kind {c : Catalog} {kind field : String} {k : Kind}
    (h : c.kinds.get? kind = some k) : c.field? (kind, field) = k.info.field? field := by
  simp [field?, h]

theorem get_of_kind {c : Catalog} {kind : String} {k : Kind} (h : c.kinds.get? kind = some k) :
    c.get kind = .ok k := by
  simp [Catalog.get, lookup?, h]

/-- How deep evaluating a field may nest: the computed fields, the static ones
below them, and one level more. -/
def depth (c : Catalog) : Nat := c.schema.graph.nodes.size + 2

/-- The rank grows from each field to those that refer to it. -/
def Ranks (c : Catalog) (rank : String × String → Nat) : Prop :=
  ∀ p spec, c.field? p = some spec →
    rank p < c.depth ∧ ∀ reference ∈ spec.refs, rank (referent p.1 reference) < rank p

/-- What sessions rely on. -/
structure Lawful (c : Catalog) : Prop where
  noPacks : c.packs = ∅
  /-- Kinds are kept under their own names. -/
  name : ∀ {kind k}, c.kinds.get? kind = some k → k.name = kind
  isKindName : ∀ {kind k}, c.kinds.get? kind = some k → IsName kind
  isFieldName : ∀ {p spec}, c.field? p = some spec → IsName p.2
  /-- Fields are kept under their own names. -/
  fieldName : ∀ {p spec}, c.field? p = some spec → spec.name = p.2
  static : ∀ {p spec}, c.field? p = some spec → spec.isStatic = true → spec.refs = []
  known : ∀ {p spec reference}, c.field? p = some spec → reference ∈ spec.refs →
    ∃ spec', c.field? (referent p.1 reference) = some spec'
  ranked : ∃ rank, c.Ranks rank

/-- Without packs a kind is found under its own name only. -/
theorem Lawful.kind_of_get {c : Catalog} (h : c.Lawful) {kind : String} {k : Kind}
    (hget : c.get kind = .ok k) : k.name = kind ∧ c.kinds.get? k.name = some k := by
  have hlookup : c.lookup? kind = some k := by
    unfold Catalog.get at hget
    split at hget
    · next k' hk' => rwa [Except.ok.inj hget] at hk'
    · simp at hget
  have hpack : c.withoutPack? kind = none := by
    unfold withoutPack?
    rw [h.noPacks]
    cases Text.splitFirst? '.' kind <;> rfl
  rw [lookup?, hpack, Option.bind_none, Option.or_none] at hlookup
  have hname := h.name hlookup
  exact ⟨hname, by rw [hname]; exact hlookup⟩

end Catalog

end LazyFields
