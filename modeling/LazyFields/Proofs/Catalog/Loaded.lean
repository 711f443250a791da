/-
  LazyFields.Proofs.Catalog.Loaded
  ────────────────────────────────
  **CATALOGS THAT WERE LOADED.**

  A catalog comes about step by step: schemas of files are added, as packs or
  alone, and logic is set (`Catalog.Loaded`).  Whatever the order, its kinds
  are sound (`Loaded.sound`):

    · `Schema.Keyed` — fields are kept under their own names; so they are in
      the schema of a file, and adding one schema to another keeps them so
    · `Sound.load`, `Sound.bind`, … — one lemma for each step

  The schemas may contradict each other, and logic may be set before or after
  the fields of another schema were added.
-/
import LazyFields.Proofs.Catalog.Bound
import LazyFields.Proofs.Schema.Merged
import LazyFields.Proofs.Session.WellTyped

namespace LazyFields

/-! ## §1. Names of fields. -/

/-- Fields are kept under their own names. -/
def ResourceSpec.Keyed (info : ResourceSpec) : Prop :=
  ∀ name spec, info.fields.get? name = some spec → spec.name = name

/-- So they are in all resources of the schema. -/
def Schema.Keyed (s : Schema) : Prop :=
  ∀ id info, s.resources.get? id = some info → info.Keyed

theorem keyed_of_schema {file : Source.File} {s : Schema} (h : file.schema = .ok s) : s.Keyed := by
  intro id info hinfo name spec hspec
  obtain ⟨-, hcontent⟩ := (merged_of_schema h).content hinfo
  obtain ⟨d, -, f, -, hname, hbuild⟩ := (hcontent.field name spec).1 hspec
  rw [(buildField_eq_ok hbuild).2.1, hname]

theorem ResourceSpec.Keyed.merge {ours theirs : ResourceSpec} (h : ours.Keyed)
    (k : theirs.Keyed) : (ours.merge theirs).Keyed := by
  intro name spec hspec
  obtain hours | htheirs | ⟨own, -, hown, -, rfl⟩ := Table.mergeWith_cases hspec
  · exact h name spec hours
  · exact k name spec htheirs
  · exact h name _ hown

/-! ## §2. Kinds. -/

namespace Kind

variable {k k' : Kind}

/-- A kind without logic is sound. -/
theorem sound_ofInfo {info : ResourceSpec} (h : info.Keyed) : (Kind.ofInfo info).Sound where
  name hspec := h _ _ hspec
  compute hlogic := by simp [ofInfo, compute?] at hlogic
  init hlogic := by simp [ofInfo] at hlogic
  idLogic hlogic := by simp [ofInfo] at hlogic

/-- Fields are added. -/
theorem Sound.merge (h : k.Sound) {info : ResourceSpec} (hinfo : info.Keyed) :
    ({ k with info := k.info.merge info } : Kind).Sound where
  name hspec :=
    have hown : k.info.Keyed := fun _ _ hown => h.name hown
    hown.merge hinfo _ _ hspec
  compute hlogic := h.compute hlogic
  init hlogic := h.init hlogic
  idLogic hlogic := h.idLogic hlogic

theorem Sound.withInit (h : k.Sound) {logic : InitLogic}
    (hlogic : ∀ args number, (logic args number).StoresNothing) : (k.withInit logic).Sound where
  name hspec := h.name hspec
  compute hother := h.compute hother
  init hset := by
    cases hset
    exact hlogic
  idLogic hother := h.idLogic hother

theorem Sound.withId (h : k.Sound) {logic : IdLogic}
    (hlogic : ∀ self number, (logic self number).StoresNothing) : (k.withId logic).Sound where
  name hspec := h.name hspec
  compute hother := h.compute hother
  init hother := h.init hother
  idLogic hset := by
    cases hset
    exact hlogic

end Kind

/-! ## §3. Catalogs. -/

namespace Catalog

variable {c c' d : Catalog} {name field : String}

/-- The kinds of the catalog come from schemas of files, and none of its logic
stores values by itself. -/
inductive Loaded : Catalog → Prop where
  | empty : Loaded ∅
  /-- The schema of a file is added. -/
  | load {c : Catalog} {file : Source.File} {s : Schema} :
      Loaded c → file.schema = .ok s → Loaded (c.load s)
  /-- It is added as a pack. -/
  | loadPack {c : Catalog} {file : Source.File} {s : Schema} (pack : String) :
      Loaded c → file.schema = .ok s → Loaded (c.loadPack pack s)
  /-- A kind of another catalog is added. -/
  | register {c d : Catalog} {k : Kind} : Loaded c → Loaded d → d.Has k → Loaded (c.register k)
  | bind {c c' : Catalog} {name field : String} {logic : ComputeLogic} :
      Loaded c → (∀ self values number, (logic self values number).StoresNothing) →
      c.bind name field logic = .ok c' → Loaded c'
  | withInit {c c' : Catalog} {name : String} {logic : InitLogic} :
      Loaded c → (∀ args number, (logic args number).StoresNothing) →
      c.modifyKind name (fun k => .ok (k.withInit logic)) = .ok c' → Loaded c'
  | withId {c c' : Catalog} {name : String} {logic : IdLogic} :
      Loaded c → (∀ self number, (logic self number).StoresNothing) →
      c.modifyKind name (fun k => .ok (k.withId logic)) = .ok c' → Loaded c'

theorem sound_empty : Sound ∅ := by
  intro key k hk
  have hnone : (∅ : Catalog).kinds.get? key = none := rfl
  simp [hnone] at hk

theorem Sound.load (h : c.Sound) {s : Schema} (hs : s.Keyed) : (c.load s).Sound := by
  intro key k hk
  refine kinds_of_load h ?_ ?_ hk
  · intro id info hinfo
    exact Kind.sound_ofInfo (hs id info hinfo)
  · intro k id info hk hinfo
    exact hk.merge (hs id info hinfo)

theorem Sound.register (h : c.Sound) {k : Kind} (hk : k.Sound) : (c.register k).Sound := by
  intro key k' hk'
  unfold Catalog.register at hk'
  dsimp only at hk'
  rw [Table.get?_insert] at hk'
  split at hk'
  · cases hk'
    exact hk
  · exact h key k' hk'

/-- A kind is changed. -/
theorem Sound.modifyKind (h : c.Sound) {f : Kind → Except Error Kind}
    (hf : ∀ k k', k.Sound → f k = .ok k' → k'.Sound) (hc : c.modifyKind name f = .ok c') :
    c'.Sound := by
  intro key k' hk'
  rcases kinds_of_modifyKind hc hk' with hold | ⟨k, hk, hfk⟩
  · exact h key k' hold
  · exact hf k k' (h key k hk) hfk

theorem Sound.bind (h : c.Sound) {logic : ComputeLogic}
    (hlogic : ∀ self values number, (logic self values number).StoresNothing)
    (hc : c.bind name field logic = .ok c') : c'.Sound := by
  intro key k' hk'
  obtain ⟨k, hk, hinfo, hinit, hid, hcomputes⟩ := kinds_of_bind hc hk'
  have hsound : k.Sound := h key k hk
  constructor
  · intro f spec hspec
    exact hsound.name (hinfo ▸ hspec)
  · intro f l hl
    rcases hcomputes hl with hold | rfl
    · exact hsound.compute hold
    · exact hlogic
  · intro l hl
    exact hsound.init (hinit ▸ hl)
  · intro l hl
    exact hsound.idLogic (hid ▸ hl)

/-- **The kinds of a loaded catalog are sound.** -/
theorem Loaded.sound (h : c.Loaded) : c.Sound := by
  induction h with
  | empty => exact sound_empty
  | load _ hschema ih => exact ih.load (keyed_of_schema hschema)
  | @loadPack c _ _ pack _ hschema ih =>
    have hpack : ({ c with packs := c.packs.insert pack () } : Catalog).Sound := ih
    exact hpack.load (keyed_of_schema hschema)
  | register _ _ hk ihc ihd => exact ihc.register (ihd.of_has hk)
  | bind _ hlogic hc ih => exact ih.bind hlogic hc
  | withInit _ hlogic hc ih =>
    refine ih.modifyKind (fun k k' hk hset => ?_) hc
    cases hset
    exact hk.withInit hlogic
  | withId _ hlogic hc ih =>
    refine ih.modifyKind (fun k k' hk hset => ?_) hc
    cases hset
    exact hk.withId hlogic

end Catalog

end LazyFields
