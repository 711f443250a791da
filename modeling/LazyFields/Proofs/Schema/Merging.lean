/-
  LazyFields.Proofs.Schema.Merging
  ────────────────────────────────
  **MERGING IS AN IDEMPOTENT MONOID THAT LOSES NOTHING.**

  A schema is merged into another one resource by resource, a resource into
  another one part by part, and the fields of the two name by name.  A part is
  joined by one of four rules: the first of two texts, the first of two
  optional parts, either of two flags, both of two flags.  Each rule is
  associative and idempotent, and a merged table inherits both from the rule
  that joins its values, so they pass up the three levels.

    · `Table.mergeWith_assoc`, `Table.mergeWith_self` — from values to tables
    · `ResourceSpec.merge_assoc`, `ResourceSpec.merge_self` — from the four
      rules to resources
    · `ResourceSpec.Keeps` — what a resource that was merged into still says
    · `Schema.merge_idempotent_monoid` — the laws, and that nothing is lost
-/
import LazyFields.Proofs.Catalog.Loading

namespace LazyFields

/-! ## §1. Tables. -/

namespace Table

variable {α : Type} {f : α → α → α}

/-- Tables are merged associatively if their values are. -/
theorem mergeWith_assoc (hf : ∀ a b c, f (f a b) c = f a (f b c)) (s t u : Table α) :
    (s.mergeWith f t).mergeWith f u = s.mergeWith f (t.mergeWith f u) := by
  refine ext_get? fun k => ?_
  simp only [get?_mergeWith]
  cases s.get? k with
  | none => simp only [Option.merge_none_left]
  | some a =>
    cases t.get? k with
    | none => simp only [Option.merge_none_left, Option.merge_none_right]
    | some b =>
      cases u.get? k with
      | none => simp only [Option.merge_none_right]
      | some c => simp only [Option.merge_some_some, hf]

/-- A table merged with itself is the same table if each value is. -/
theorem mergeWith_self (hf : ∀ a, f a a = a) (s : Table α) : s.mergeWith f s = s := by
  refine ext_get? fun k => ?_
  rw [get?_mergeWith]
  cases s.get? k with
  | none => rfl
  | some a => rw [Option.merge_some_some, hf]

end Table

/-! ## §2. Texts. -/

theorem firstText_self (a : String) : firstText a a = a := by
  unfold firstText
  split <;> rfl

theorem firstText_assoc (a b c : String) :
    firstText (firstText a b) c = firstText a (firstText b c) := by
  unfold firstText
  by_cases ha : a = "" <;> simp [ha]

theorem firstText_of_ne {a : String} (h : a ≠ "") (b : String) : firstText a b = a := if_neg h

/-! ## §3. Resources. -/

namespace ResourceSpec

theorem merge_assoc (a b c : ResourceSpec) : (a.merge b).merge c = a.merge (b.merge c) := by
  have hfields := Table.mergeWith_assoc (f := fun (ours _ : FieldSpec) => ours)
    (fun _ _ _ => rfl) a.fields b.fields c.fields
  simp only [merge, firstText_assoc, Option.or_assoc, Bool.or_assoc, Bool.and_assoc, hfields]

theorem merge_self (a : ResourceSpec) : a.merge a = a := by
  have hfields := Table.mergeWith_self (f := fun (ours _ : FieldSpec) => ours)
    (fun _ => rfl) a.fields
  simp only [merge, firstText_self, Option.or_self, Bool.or_self, Bool.and_self, hfields]

/-- What `ours` says, `merged` says too.  What `ours` leaves open (an empty text,
no constructor, no type of the elements, a name without a field) may be filled
in. -/
structure Keeps (merged ours : ResourceSpec) : Prop where
  id : merged.id = ours.id
  name : merged.name = ours.name
  title : ours.title ≠ "" → merged.title = ours.title
  desc : ours.desc ≠ "" → merged.desc = ours.desc
  init : ∀ params, ours.init = some params → merged.init = some params
  isPrivate : ours.isPrivate = true → merged.isPrivate = true
  /-- A resource that is declared by itself stays so. -/
  stands : ours.isExtension = false → merged.isExtension = false
  defaults : ours.defaults ≠ "" → merged.defaults = ours.defaults
  field : ∀ name spec, ours.field? name = some spec → merged.field? name = some spec
  listType : ∀ element, ours.listType = some element → merged.listType = some element

/-- The fields of the first resource, and those that only the second one has. -/
theorem field?_merge (ours theirs : ResourceSpec) (name : String) :
    (ours.merge theirs).field? name = (ours.field? name).or (theirs.field? name) := by
  unfold field? merge
  rw [Table.get?_mergeWith]
  cases ours.fields.get? name <;> cases theirs.fields.get? name <;> rfl

/-- **What a resource says is kept** when another one is merged into it. -/
theorem keeps_merge (ours theirs : ResourceSpec) : (ours.merge theirs).Keeps ours where
  id := rfl
  name := rfl
  title h := firstText_of_ne h theirs.title
  desc h := firstText_of_ne h theirs.desc
  init params h := by simp only [merge, h, Option.some_or]
  isPrivate h := by simp only [merge, h, Bool.true_or]
  stands h := by simp only [merge, h, Bool.false_and]
  defaults h := firstText_of_ne h theirs.defaults
  field name spec h := by rw [field?_merge, h, Option.some_or]
  listType element h := by simp only [merge, h, Option.some_or]

theorem keeps_refl (ours : ResourceSpec) : ours.Keeps ours := by
  have hkeeps := ours.keeps_merge ours
  rwa [merge_self] at hkeeps

end ResourceSpec

/-! ## §4. Schemas. -/

namespace Schema

variable {id : String} {ours theirs : ResourceSpec}

theorem resource?_merge (a b : Schema) (id : String) :
    (a.merge b).resource? id = Option.merge ResourceSpec.merge (a.resource? id) (b.resource? id) :=
  Table.get?_mergeWith _ _ _ _

/-- A resource of the first schema is kept, whatever the second one says of it. -/
theorem keeps_of_resource? {a : Schema} (h : a.resource? id = some ours) (b : Schema) :
    ∃ merged, (a.merge b).resource? id = some merged ∧ merged.Keeps ours := by
  rw [resource?_merge, h]
  cases b.resource? id with
  | none => exact ⟨ours, rfl, ours.keeps_refl⟩
  | some theirs => exact ⟨ours.merge theirs, rfl, ours.keeps_merge theirs⟩

/-- A resource of the second schema is there, with every field that the first
one does not have. -/
theorem adds_of_resource? {b : Schema} (h : b.resource? id = some theirs) (a : Schema) :
    ∃ merged, (a.merge b).resource? id = some merged
      ∧ (a.resource? id = none → merged = theirs)
      ∧ ∀ name, (∀ ours, a.resource? id = some ours → ours.field? name = none) →
          merged.field? name = theirs.field? name := by
  rw [resource?_merge, h]
  cases a.resource? id with
  | none => exact ⟨theirs, rfl, fun _ => rfl, fun _ _ => rfl⟩
  | some ours =>
    refine ⟨ours.merge theirs, rfl, fun hnone => by simp at hnone, fun name hnone => ?_⟩
    rw [ResourceSpec.field?_merge, hnone ours rfl, Option.none_or]

/-- **Merging is an idempotent monoid, and nothing is lost.**  It is associative,
the empty schema is neutral on both sides, and a schema merged with itself stays
as it is.  The merged schema has the resources of the two schemas and no other.
What the first schema says of a resource it keeps; a resource that only the
second schema has, and a field that only the second one has, are added as they
are. -/
theorem merge_idempotent_monoid (a b c : Schema) :
    (a.merge b).merge c = a.merge (b.merge c)
      ∧ (∅ : Schema).merge a = a ∧ a.merge ∅ = a ∧ a.merge a = a
      ∧ (∀ id, ((a.merge b).resource? id).isSome
          = ((a.resource? id).isSome || (b.resource? id).isSome))
      ∧ (∀ id ours, a.resource? id = some ours →
          ∃ merged, (a.merge b).resource? id = some merged ∧ merged.Keeps ours)
      ∧ ∀ id theirs, b.resource? id = some theirs →
          ∃ merged, (a.merge b).resource? id = some merged
            ∧ (a.resource? id = none → merged = theirs)
            ∧ ∀ name, (∀ ours, a.resource? id = some ours → ours.field? name = none) →
                merged.field? name = theirs.field? name := by
  refine ⟨?_, empty_merge a, rfl, ?_, ?_, ?_, ?_⟩
  · exact congrArg Schema.mk (Table.mergeWith_assoc ResourceSpec.merge_assoc _ _ _)
  · exact congrArg Schema.mk (Table.mergeWith_self ResourceSpec.merge_self _)
  · intro id
    rw [resource?_merge]
    cases a.resource? id <;> cases b.resource? id <;> rfl
  · exact fun id ours h => keeps_of_resource? h b
  · exact fun id theirs h => adds_of_resource? h a

/-- A field of type `string` that is given at construction. -/
def textField (name : String) : FieldSpec :=
  ⟨name, .string, true, [], "", "", false⟩

/-- A resource of the given fields. -/
def textResource (id title : String) (isExtension : Bool) (fields : List String) : ResourceSpec where
  id := id
  name := id
  title := title
  desc := ""
  init := none
  isPrivate := false
  isExtension := isExtension
  defaults := ""
  fields := Table.ofList (fields.map fun name => (name, textField name))
  listType := none

/-- A file has a path. -/
def fileSchema : Schema := ⟨Table.ofList [("file", textResource "file" "A file." false ["path"])]⟩

/-- Files have an owner too, who is a user. -/
def ownerSchema : Schema :=
  ⟨Table.ofList [("file", textResource "file" "An owned file." true ["owner"]),
    ("user", textResource "user" "" false ["name"])]⟩

/-- The file keeps its path and title and gets an owner, and the user is added. -/
theorem merge_idempotent_monoid_owner :
    ∃ file user, (fileSchema.merge ownerSchema).resource? "file" = some file
      ∧ (fileSchema.merge ownerSchema).resource? "user" = some user
      ∧ file.title = "A file." ∧ file.isExtension = false
      ∧ file.field? "path" = some (textField "path")
      ∧ file.field? "owner" = some (textField "owner")
      ∧ user = textResource "user" "" false ["name"] := by
  obtain ⟨-, -, -, -, -, hkeeps, hadds⟩ :=
    merge_idempotent_monoid fileSchema ownerSchema ∅
  obtain ⟨file, hfile, hkept⟩ := hkeeps "file" (textResource "file" "A file." false ["path"]) rfl
  obtain ⟨file', hfile', -, howner⟩ :=
    hadds "file" (textResource "file" "An owned file." true ["owner"]) rfl
  obtain ⟨user, huser, hnew, -⟩ := hadds "user" (textResource "user" "" false ["name"]) rfl
  obtain rfl : file' = file := Option.some.inj (hfile'.symm.trans hfile)
  have hnotOurs : ∀ ours, fileSchema.resource? "file" = some ours → ours.field? "owner" = none := by
    intro ours hours
    obtain rfl := Option.some.inj hours
    rfl
  exact ⟨file', user, hfile, huser, hkept.title (by decide), hkept.stands rfl,
    hkept.field "path" (textField "path") rfl, howner "owner" hnotOurs, hnew rfl⟩

end Schema

end LazyFields
