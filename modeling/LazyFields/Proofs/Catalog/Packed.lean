/-
  LazyFields.Proofs.Catalog.Packed
  ────────────────────────────────
  **WHAT THE NAME OF A PACK'S RESOURCE LEADS TO.**

  Kinds stand in one table, under the ids that their own files give them, and a
  name that starts with a pack is looked up as it is and then without the pack.
  So a pack does not keep its kinds to itself: it shares a kind with every other
  schema that has a resource of the same id, whichever was loaded first.

    · `lookup?_packed`  — a name in a pack is that of the rest, if nothing goes
                          by the whole of it
    · `get_packed`      — the kind that the name of a pack's resource leads to

  Nothing else comes in between, but both do (`packs_share_kinds`).
-/
import LazyFields.Proofs.Catalog.Loops

namespace LazyFields

open LazyFields.Source

namespace Catalog

variable {c : Catalog} {s : Schema} {pack id name : String} {info : ResourceSpec}

/-! ## §1. Looking up a name in a pack. -/

/-- A name that starts with a pack is that of a kind, or falls back to the rest. -/
theorem lookup?_packed (id : String) (hdot : '.' ∉ pack.toList)
    (hpack : c.packs.contains pack = true) : c.lookup? (pack ++ "." ++ id)
      = (c.kinds.get? (pack ++ "." ++ id)).or (c.kinds.get? id) := by
  have hsplit : Text.splitFirst? '.' (pack ++ "." ++ id) = some (pack, id) :=
    Text.splitFirst?_eq_some_iff.2 ⟨rfl, hdot⟩
  have hrest : c.withoutPack? (pack ++ "." ++ id) = some id := by
    rw [withoutPack?, hsplit]
    exact if_pos hpack
  rw [lookup?, hrest, Option.bind_some]

theorem contains_packs_loadPack : (c.loadPack pack s).packs.contains pack = true := by
  show (c.packs.insert pack ()).contains pack = true
  simp [Table.contains]

/-- **The name of a pack's resource leads to one kind.**  That is the kind of the
whole name, if there is one.  Otherwise it is the kind of the resource's id: a new
one that is the resource and nothing else, or the kind that was known by this id,
with what the resource adds to it. -/
theorem get_packed (c : Catalog) (hdot : '.' ∉ pack.toList) (hinfo : s.resource? id = some info) :
    ∃ k, (c.loadPack pack s).get (pack ++ "." ++ id) = .ok k
      ∧ (∀ own, (c.loadPack pack s).kinds.get? (pack ++ "." ++ id) = some own → k = own)
      ∧ (c.kinds.get? (pack ++ "." ++ id) = none → s.resource? (pack ++ "." ++ id) = none →
        (c.kinds.get? id = none → k = .ofInfo info)
          ∧ ∀ known, c.kinds.get? id = some known →
            k = { known with info := known.info.merge info }) := by
  have hkind : (c.loadPack pack s).kinds.get? id = some (.gaining (c.kinds.get? id) info) := by
    have hresource : s.resources.get? id = some info := hinfo
    rw [get?_kinds_loadPack, get?_kinds_load, hresource]
    rfl
  have hlookup := lookup?_packed id hdot (contains_packs_loadPack (c := c) (s := s))
  rw [hkind] at hlookup
  cases hown : (c.loadPack pack s).kinds.get? (pack ++ "." ++ id) with
  | some own =>
    rw [hown, Option.some_or] at hlookup
    refine ⟨own, ?_, ?_, ?_⟩
    · rw [get, hlookup]
    · intro own' heq
      exact Option.some.inj heq
    · intro hbefore hresource
      -- then nothing could go by the whole name
      have hnone : s.resources.get? (pack ++ "." ++ id) = none := hresource
      rw [get?_kinds_loadPack, get?_kinds_load, hnone, Option.elim_none, hbefore] at hown
      exact absurd hown (by simp)
  | none =>
    rw [hown, Option.none_or] at hlookup
    refine ⟨.gaining (c.kinds.get? id) info, ?_, ?_, ?_⟩
    · rw [get, hlookup]
    · intro own heq
      simp at heq
    · intro _ _
      constructor
      · intro hnew
        rw [hnew]
        rfl
      · intro known hknown
        rw [hknown]
        rfl

/-- The schema of a file that declares one resource, with one static field. -/
def oneField (id field : String) : Schema := schemaOf (textFile false id [(field, none)] ∅)

/-- The resource of `oneField`. -/
def oneFieldSpec (id field : String) : ResourceSpec where
  id := id
  name := id
  title := ""
  desc := ""
  init := none
  isPrivate := false
  isExtension := false
  defaults := ""
  fields := Table.ofList [(field, ⟨field, .string, true, [], "", "", false⟩)]
  listType := none

/-- The resource of the second pack is found as part of that of the first. -/
theorem get_packed_user :
    '.' ∉ "net".toList
      ∧ (oneField "user" "uid").resource? "user" = some (oneFieldSpec "user" "uid")
      ∧ ∃ k, ((loadPack ∅ "os" (oneField "user" "name")).loadPack "net" (oneField "user" "uid")).get
          ("net" ++ "." ++ "user") = .ok k
        ∧ k.info = (oneFieldSpec "user" "name").merge (oneFieldSpec "user" "uid") := by
  have hdot : '.' ∉ "net".toList := by decide
  have hinfo : (oneField "user" "uid").resource? "user" = some (oneFieldSpec "user" "uid") := by
    decide +kernel
  obtain ⟨k, hk, -, halone⟩ := get_packed (loadPack ∅ "os" (oneField "user" "name")) hdot hinfo
  refine ⟨hdot, hinfo, k, hk, ?_⟩
  have hknown : (loadPack ∅ "os" (oneField "user" "name")).kinds.get? "user"
      = some (.ofInfo (oneFieldSpec "user" "name")) := by rfl
  rw [(halone (by rfl) (by decide +kernel)).2 _ hknown]
  rfl

/-! ## §2. Packs share their kinds. -/

/-- Catalogs that come about by adding schemas, packs and kinds. -/
inductive Filled : Catalog → Prop where
  | empty : Filled ∅
  | load {c : Catalog} (s : Schema) : Filled c → Filled (c.load s)
  | loadPack {c : Catalog} (pack : String) (s : Schema) : Filled c → Filled (c.loadPack pack s)
  | register {c : Catalog} (k : Kind) : Filled c → Filled (c.register k)

/-- A pack does not always lead to its own resource as it is: another schema has a
resource of the same id, or one that is called like the pack and the id together. -/
theorem packs_share_kinds :
    (¬ ∀ (c : Catalog) (pack id : String) (file : File) (s : Schema) (info : ResourceSpec),
      c.Filled → '.' ∉ pack.toList → file.schema = .ok s → s.resource? id = some info →
      c.kinds.get? (pack ++ "." ++ id) = none → s.resource? (pack ++ "." ++ id) = none →
      ∃ k, (c.loadPack pack s).get (pack ++ "." ++ id) = .ok k ∧ k.info = info)
    ∧ ¬ ∀ (c : Catalog) (pack id : String) (file : File) (s : Schema) (info : ResourceSpec),
      c.Filled → '.' ∉ pack.toList → file.schema = .ok s → s.resource? id = some info →
      c.kinds.get? id = none →
      ∃ k, (c.loadPack pack s).get (pack ++ "." ++ id) = .ok k ∧ k.info = info := by
  have hschema : (textFile false "user" [("uid", none)] ∅).schema = .ok (oneField "user" "uid") := by
    decide +kernel
  have hinfo : (oneField "user" "uid").resource? "user" = some (oneFieldSpec "user" "uid") := by
    decide +kernel
  -- what a catalog answers, said of the resource alone
  have hanswer : ∀ {c : Catalog} {name : String} {info : ResourceSpec},
      (∃ k, c.get name = .ok k ∧ k.info = info) →
      (c.get name).toOption.map Kind.info = some info := by
    intro c name info hget
    obtain ⟨k, hk, hinfo⟩ := hget
    rw [hk, ← hinfo]
    rfl
  constructor
  · intro h
    have hget := h _ "core" "user" _ _ _ (.load (oneField "user" "name") .empty) (by decide)
      hschema hinfo (by rfl) (by decide +kernel)
    exact absurd (hanswer hget) (by decide +kernel)
  · intro h
    have hget := h _ "core" "user" _ _ _ (.load (oneField "core.user" "key") .empty) (by decide)
      hschema hinfo (by rfl)
    exact absurd (hanswer hget) (by decide +kernel)

end Catalog

end LazyFields
