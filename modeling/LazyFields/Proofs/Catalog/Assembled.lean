/-
  LazyFields.Proofs.Catalog.Assembled
  ────────────────────────────────
  **CATALOGS OF SCHEMAS, WHATEVER THEIR LOGIC.**

  A catalog is assembled when its kinds come from schemas of files, with any
  logic set in between.  Setting logic leaves the fields of a kind alone, so
  all that is known of an assembled catalog is what the schemas tell: fields
  are kept under their own names (`Assembled.keyed`).
-/
import LazyFields.Proofs.Catalog.Loaded

namespace LazyFields.Catalog

variable {c c' d : Catalog} {name : String}

/-- The kinds of the catalog come from schemas of files. -/
inductive Assembled : Catalog → Prop where
  | empty : Assembled ∅
  /-- The schema of a file is added. -/
  | load {c : Catalog} {file : Source.File} {s : Schema} :
      Assembled c → file.schema = .ok s → Assembled (c.load s)
  /-- It is added as a pack. -/
  | loadPack {c : Catalog} {file : Source.File} {s : Schema} (pack : String) :
      Assembled c → file.schema = .ok s → Assembled (c.loadPack pack s)
  /-- A kind of another catalog is added. -/
  | register {c d : Catalog} {k : Kind} :
      Assembled c → Assembled d → d.Has k → Assembled (c.register k)
  /-- A kind is changed, but for its fields. -/
  | modify {c c' : Catalog} {name : String} {f : Kind → Except Error Kind} :
      Assembled c → (∀ k k', f k = .ok k' → k'.info = k.info) →
      c.modifyKind name f = .ok c' → Assembled c'

/-- Setting the logic of a field leaves the fields alone. -/
theorem Assembled.bind (h : c.Assembled) {field : String} {logic : ComputeLogic}
    (hc : c.bind name field logic = .ok c') : c'.Assembled := by
  refine h.modify (fun k k' hbind => ?_) hc
  rw [(Kind.bind_eq_ok hbind).2]

theorem Assembled.withInit (h : c.Assembled) {logic : InitLogic}
    (hc : c.modifyKind name (fun k => .ok (k.withInit logic)) = .ok c') : c'.Assembled := by
  refine h.modify (fun k k' hset => ?_) hc
  cases hset
  rfl

theorem Assembled.withId (h : c.Assembled) {logic : IdLogic}
    (hc : c.modifyKind name (fun k => .ok (k.withId logic)) = .ok c') : c'.Assembled := by
  refine h.modify (fun k k' hset => ?_) hc
  cases hset
  rfl

/-- Adding a schema keeps fields under their own names. -/
theorem keyed_load (h : ∀ k, c.Has k → k.info.Keyed) {file : Source.File} {s : Schema}
    (hs : file.schema = .ok s) : ∀ k, (c.load s).Has k → k.info.Keyed := by
  rintro k ⟨key, hk⟩
  refine kinds_of_load (P := fun k => k.info.Keyed) (fun key k hk => h k ⟨key, hk⟩) ?_ ?_ hk
  · exact fun id info hinfo => keyed_of_schema hs id info hinfo
  · exact fun k id info hk hinfo => hk.merge (keyed_of_schema hs id info hinfo)

/-- **Fields are kept under their own names.** -/
theorem Assembled.keyed (h : c.Assembled) : ∀ k, c.Has k → k.info.Keyed := by
  induction h with
  | empty =>
    rintro k ⟨key, hk⟩
    have hnone : (∅ : Catalog).kinds.get? key = none := rfl
    simp [hnone] at hk
  | load _ hs ih => exact keyed_load ih hs
  | @loadPack c _ _ pack _ hs ih =>
    exact keyed_load (c := { c with packs := c.packs.insert pack () }) ih hs
  | @register c d k _ _ hk ihc ihd =>
    rintro k' ⟨key, hk'⟩
    unfold Catalog.register at hk'
    dsimp only at hk'
    rw [Table.get?_insert] at hk'
    split at hk'
    · cases hk'
      exact ihd _ hk
    · exact ihc _ ⟨key, hk'⟩
  | modify _ hf hc ih =>
    rintro k' ⟨key, hk'⟩
    rcases kinds_of_modifyKind hc hk' with hold | ⟨k, hk, hfk⟩
    · exact ih _ ⟨key, hold⟩
    · rw [hf k k' hfk]
      exact ih k ⟨key, hk⟩

end LazyFields.Catalog
