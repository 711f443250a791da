/-
  LazyFields.Proofs.Session.View
  ────────────────────────────────
  **WHAT OF A SESSION DECIDES ITS ANSWERS.**

  Most of the theory looks at a session through its `View`: the outline, that
  is the catalog and the instances without their caches, the slots of all
  fields as one function on nodes, and the watch graph.  The journal, the time
  and the guards of owners are left out, so they need no frame conditions, and
  a change to a cache is a change of one slot (`view_setSlot`).

  A sound outline knows what names mean:

    · `Outline.Sound.address_inj` — one address, one field
    · `Outline.Sound.target_iff` — where a reference points, and under which
      address it is watched, belong together
    · `Outline.Sound.rank_target`, `Outline.Sound.rank_of_targetAddress` — the
      rank grows along references, and along watches
-/
import LazyFields.Proofs.Catalog.Lawful
import LazyFields.Proofs.Session.Ends
import Mathlib.Logic.Function.Basic

namespace LazyFields

/-! ## §1. Outlines. -/

/-- A field of an instance, known by its number. -/
abbrev Node := Nat × String

/-- What comes of a field. -/
abbrev Outcome := Except Error Value

/-- An instance without its cache. -/
structure Member where
  kind : Kind
  id : String
  discarded : Bool

namespace Member

/-- The name of a field in the watch graph. -/
def address (m : Member) (field : String) : String := fieldAddress m.kind.name m.id field

/-- The name of what a reference points to in the watch graph. -/
def targetAddress (m : Member) (reference : String) : String :=
  match splitReference reference with
  | (none, field) => m.address field
  | (some kind, field) => fieldAddress kind "" field

end Member

/-- The instances of a session and how they are found. -/
structure Outline where
  catalog : Catalog
  config : Config
  live : Bool
  members : List Member
  published : Table Nat

namespace Outline

variable {o : Outline} {x y : Node} {m m' : Member} {spec spec' : FieldSpec} {reference : String}

/-- The instance of a number. -/
def member? (o : Outline) (n : Nat) : Option Member := o.members[n]?

/-- The node is a declared field of an instance that was not discarded. -/
structure Declares (o : Outline) (x : Node) (m : Member) (spec : FieldSpec) : Prop where
  member : o.member? x.1 = some m
  kept : m.discarded = false
  field : m.kind.info.field? x.2 = some spec

/-- The node is there. -/
def Has (o : Outline) (x : Node) : Prop := ∃ m spec, o.Declares x m spec

instance (o : Outline) (x : Node) : Decidable (o.Has x) :=
  decidable_of_iff ((o.member? x.1).any fun m =>
    !m.discarded && (m.kind.info.field? x.2).isSome) <| by
    simp only [Option.any_eq_true, Bool.and_eq_true, Bool.not_eq_true', Option.isSome_iff_exists]
    constructor
    · rintro ⟨m, hm, hkept, spec, hspec⟩
      exact ⟨m, spec, hm, hkept, hspec⟩
    · rintro ⟨m, spec, hm, hkept, hspec⟩
      exact ⟨m, hm, hkept, spec, hspec⟩

/-- The node that a reference of an instance points to, if it is there. -/
def target (o : Outline) (n : Nat) (reference : String) : Option Node :=
  match splitReference reference with
  | (none, field) => some (n, field)
  | (some kind, field) =>
      (o.published.get? (instanceAddress kind "")).map fun shared => (shared, field)

/-- A rank of kinds and fields as a rank of nodes. -/
def rank (o : Outline) (rank : String × String → Nat) (x : Node) : Nat :=
  match o.member? x.1 with
  | some m => rank (m.kind.name, x.2)
  | none => 0

/-- The node is a declared field of an instance of a kind of the catalog. -/
structure Shows (o : Outline) (x : Node) (m : Member) (spec : FieldSpec) : Prop
    extends Declares o x m spec where
  kind : o.catalog.kinds.get? m.kind.name = some m.kind

/-- What is published is there, of a kind of the catalog, and under its own
address.  Of the other instances nothing is said. -/
structure Upright (o : Outline) : Prop where
  lawful : o.catalog.Lawful
  live : o.live = true
  published : ∀ {address n}, o.published.get? address = some n →
    ∃ m, o.member? n = some m ∧ m.discarded = false
      ∧ o.catalog.kinds.get? m.kind.name = some m.kind
      ∧ instanceAddress m.kind.name m.id = address

/-- The table of published instances and the catalog tell the truth about the
instances. -/
structure Sound (o : Outline) : Prop where
  lawful : o.catalog.Lawful
  live : o.live = true
  kind : ∀ {n m}, o.member? n = some m → o.catalog.kinds.get? m.kind.name = some m.kind
  published : ∀ {address n}, o.published.get? address = some n ↔
    ∃ m, o.member? n = some m ∧ m.discarded = false
      ∧ instanceAddress m.kind.name m.id = address

/-- A field is declared in one way only. -/
theorem Declares.eq (h : o.Declares x m spec) (h' : o.Declares x m' spec') :
    m = m' ∧ spec = spec' := by
  obtain rfl : m = m' := Option.some.inj (h.member.symm.trans h'.member)
  exact ⟨rfl, Option.some.inj (h.field.symm.trans h'.field)⟩

/-- The rank of a declared field is that of its kind and name. -/
theorem Declares.rank_eq (h : o.Declares x m spec) (rank : String × String → Nat) :
    o.rank rank x = rank (m.kind.name, x.2) := by
  simp [Outline.rank, h.member]

/-- A field that an instance shows is in the catalog. -/
theorem Shows.catalog_field? (h : o.Shows x m spec) :
    o.catalog.field? (m.kind.name, x.2) = some spec :=
  (Catalog.field?_of_kind h.kind).trans h.field

/-- What a reference points to is shown, once its instance is there. -/
theorem Upright.has_target (ho : o.Upright) (hx : o.Shows x m spec) (href : reference ∈ spec.refs)
    (h : o.target x.1 reference = some y) :
    ∃ m' spec', o.Shows y m' spec' ∧ m'.address y.2 = m.targetAddress reference
      ∧ referent m.kind.name reference = (m'.kind.name, y.2) := by
  obtain ⟨spec', hspec'⟩ := ho.lawful.known hx.catalog_field? href
  unfold target at h
  unfold Member.targetAddress
  unfold referent at hspec' ⊢
  rcases hsplit : splitReference reference with ⟨_ | kind, field⟩
  · simp only [hsplit, Option.some.injEq] at h hspec'
    subst h
    rw [Catalog.field?_of_kind hx.kind] at hspec'
    exact ⟨m, spec', ⟨⟨hx.member, hx.kept, hspec'⟩, hx.kind⟩, rfl, rfl⟩
  · simp only [hsplit] at h hspec'
    obtain ⟨shared, hshared, rfl⟩ := Option.map_eq_some_iff.1 h
    obtain ⟨m', hm', hkept, hkind', haddress⟩ := ho.published hshared
    obtain ⟨k, hk, -⟩ := Option.bind_eq_some_iff.1 hspec'
    obtain ⟨hkind, hid⟩ := instanceAddress_inj (ho.lawful.isKindName hkind').2
      (ho.lawful.isKindName hk).2 haddress
    obtain rfl : m'.kind.name = kind := hkind
    rw [Catalog.field?_of_kind hkind'] at hspec'
    refine ⟨m', spec', ⟨⟨hm', hkept, hspec'⟩, hkind'⟩, ?_, rfl⟩
    rw [Member.address, hid]

/-- The rank grows along references. -/
theorem Upright.rank_target (ho : o.Upright) {rank : String × String → Nat}
    (hrank : o.catalog.Ranks rank) (hx : o.Shows x m spec) (href : reference ∈ spec.refs)
    (h : o.target x.1 reference = some y) : o.rank rank y < o.rank rank x := by
  obtain ⟨m', spec', hy, -, hname⟩ := ho.has_target hx href h
  have hlt := (hrank _ _ hx.catalog_field?).2 reference href
  rw [hname] at hlt
  rwa [hx.rank_eq, hy.rank_eq]

namespace Sound

/-- The outline of a sound session is upright. -/
theorem upright (ho : o.Sound) : o.Upright := by
  refine ⟨ho.lawful, ho.live, ?_⟩
  intro address n hn
  obtain ⟨m, hm, hkept, haddress⟩ := ho.published.1 hn
  exact ⟨m, hm, hkept, ho.kind hm, haddress⟩

/-- In a sound outline a declared field is shown. -/
theorem shows (ho : o.Sound) (hx : o.Declares x m spec) : o.Shows x m spec :=
  ⟨hx, ho.kind hx.member⟩

variable (ho : o.Sound)

include ho

/-- The catalog knows the fields of every instance by its kind. -/
theorem field? (h : o.member? x.1 = some m) :
    o.catalog.field? (m.kind.name, x.2) = m.kind.info.field? x.2 :=
  Catalog.field?_of_kind (ho.kind h)

/-- A declared field is in the catalog. -/
theorem catalog_field? (h : o.Declares x m spec) :
    o.catalog.field? (m.kind.name, x.2) = some spec :=
  (ho.field? h.member).trans h.field

/-- Kind and field have names without separators. -/
theorem isName (h : o.Declares x m spec) : IsName m.kind.name ∧ IsName x.2 :=
  ⟨ho.lawful.isKindName (ho.kind h.member), ho.lawful.isFieldName (ho.catalog_field? h)⟩

/-- Two instances that were not discarded differ in kind or id. -/
theorem member_inj {a b : Nat} (ha : o.member? a = some m) (hb : o.member? b = some m')
    (hm : m.discarded = false) (hm' : m'.discarded = false)
    (hkind : m.kind.name = m'.kind.name) (hid : m.id = m'.id) : a = b := by
  have hpa := ho.published.2 ⟨m, ha, hm, rfl⟩
  have hpb := ho.published.2 ⟨m', hb, hm', rfl⟩
  rw [hkind, hid] at hpa
  exact Option.some.inj (hpa.symm.trans hpb)

/-- **One address, one field.** -/
theorem address_inj (hx : o.Declares x m spec) (hy : o.Declares y m' spec')
    (h : m.address x.2 = m'.address y.2) : x = y := by
  obtain ⟨hkind, hid, hfield⟩ := fieldAddress_inj (ho.isName hx).1.2 (ho.isName hy).1.2
    (ho.isName hx).2.2 (ho.isName hy).2.2 h
  exact Prod.ext (ho.member_inj hx.member hy.member hx.kept hy.kept hkind hid) hfield

/-- What a reference points to is there, once its instance is. -/
theorem has_target (hx : o.Declares x m spec) (href : reference ∈ spec.refs)
    (h : o.target x.1 reference = some y) :
    ∃ m' spec', o.Declares y m' spec' ∧ m'.address y.2 = m.targetAddress reference
      ∧ referent m.kind.name reference = (m'.kind.name, y.2) := by
  obtain ⟨m', spec', hy, haddress, hname⟩ := ho.upright.has_target (ho.shows hx) href h
  exact ⟨m', spec', hy.toDeclares, haddress, hname⟩

/-- A node under the address of a reference is of the kind and field that the
reference names. -/
theorem referent_of_address (hx : o.Declares x m spec) (href : reference ∈ spec.refs)
    (hy : o.Declares y m' spec') (h : m'.address y.2 = m.targetAddress reference) :
    referent m.kind.name reference = (m'.kind.name, y.2) := by
  obtain ⟨spec₂, hspec₂⟩ := ho.lawful.known (ho.catalog_field? hx) href
  have hfield := ho.lawful.isFieldName hspec₂
  obtain ⟨k, hk, -⟩ := Option.bind_eq_some_iff.1 hspec₂
  have hkind := ho.lawful.isKindName hk
  obtain ⟨hisKind, hisField⟩ := ho.isName hy
  unfold Member.targetAddress at h
  unfold referent at hfield hkind ⊢
  rcases hsplit : splitReference reference with ⟨_ | kind, field⟩
  · simp only [hsplit] at h hfield hkind
    obtain ⟨hk', -, hf'⟩ := fieldAddress_inj hisKind.2 hkind.2 hisField.2 hfield.2 h
    rw [hk', hf']
  · simp only [hsplit] at h hfield hkind
    obtain ⟨hk', -, hf'⟩ := fieldAddress_inj hisKind.2 hkind.2 hisField.2 hfield.2 h
    rw [hk', hf']

/-- **A reference points to the node under its address.** -/
theorem target_iff (hx : o.Declares x m spec) (href : reference ∈ spec.refs)
    (hy : o.Declares y m' spec') :
    o.target x.1 reference = some y ↔ m'.address y.2 = m.targetAddress reference := by
  constructor
  · intro h
    obtain ⟨m₂, spec₂, hy₂, haddress, -⟩ := ho.has_target hx href h
    rw [(hy.eq hy₂).1]
    exact haddress
  · intro h
    obtain ⟨spec₂, hspec₂⟩ := ho.lawful.known (ho.catalog_field? hx) href
    obtain ⟨k, hk, -⟩ := Option.bind_eq_some_iff.1 hspec₂
    have hfield := ho.lawful.isFieldName hspec₂
    have hkind := ho.lawful.isKindName hk
    obtain ⟨hisKind, hisField⟩ := ho.isName hy
    unfold Member.targetAddress at h
    unfold referent at hfield hkind
    unfold target
    rcases hsplit : splitReference reference with ⟨_ | kind, field⟩
    · -- a field of the same instance: it has its kind and id
      simp only [hsplit] at h hfield hkind
      obtain ⟨hk', hid', hf'⟩ := fieldAddress_inj hisKind.2 hkind.2 hisField.2 hfield.2 h
      have hnumber := ho.member_inj hx.member hy.member hx.kept hy.kept hk'.symm hid'.symm
      exact congrArg some (Prod.ext hnumber hf'.symm)
    · -- a field of a shared instance: it is published under its kind
      simp only [hsplit] at h hfield hkind
      obtain ⟨hk', hid', hf'⟩ := fieldAddress_inj hisKind.2 hkind.2 hisField.2 hfield.2 h
      have hshared := ho.published.2 ⟨m', hy.member, hy.kept, rfl⟩
      rw [hk', hid'] at hshared
      simp only [hshared, Option.map_some, Option.some.injEq]
      exact Prod.ext rfl hf'.symm

section Ranks

variable {rank : String × String → Nat} (hrank : o.catalog.Ranks rank)

include hrank

/-- The rank of a declared field is below the depth of the catalog. -/
theorem rank_lt_depth (hx : o.Declares x m spec) : o.rank rank x < o.catalog.depth := by
  rw [hx.rank_eq]
  exact (hrank _ _ (ho.catalog_field? hx)).1

/-- The rank grows from the target of a watch to the one that follows it. -/
theorem rank_of_targetAddress (hx : o.Declares x m spec) (href : reference ∈ spec.refs)
    (hy : o.Declares y m' spec') (h : m'.address y.2 = m.targetAddress reference) :
    o.rank rank y < o.rank rank x := by
  have hlt := (hrank _ _ (ho.catalog_field? hx)).2 reference href
  rw [ho.referent_of_address hx href hy h] at hlt
  rwa [hx.rank_eq, hy.rank_eq]

/-- What a field depends on has a smaller rank. -/
theorem rank_target (hx : o.Declares x m spec) (href : reference ∈ spec.refs)
    (h : o.target x.1 reference = some y) : o.rank rank y < o.rank rank x :=
  ho.upright.rank_target hrank (ho.shows hx) href h

end Ranks

end Sound

end Outline

/-! ## §2. Entries as outcomes. -/

namespace Entry

/-- The entry that stores an outcome. -/
def ofOutcome : Outcome → Int → Entry
  | .ok v, now => ofValue v now
  | .error e, now => ofError e now

/-- The entry of an outcome has that outcome. -/
@[simp] theorem result?_ofOutcome (r : Outcome) (now : Int) :
    (ofOutcome r now).result? = some r := by
  cases r <;> rfl

/-- An entry that has a result is settled. -/
theorem isSettled_of_result? {e : Entry} {r : Outcome} (h : e.result? = some r) :
    e.isSettled = true := by
  unfold result? at h
  unfold isSettled
  split at h
  · next heq => simp [heq]
  · split at h
    · next hvalid => simp [hvalid]
    · simp at h

end Entry

/-! ## §3. Views. -/

/-- The outline of a session, the slots of its fields, and who watches them. -/
structure View where
  outline : Outline
  slots : Node → Option Slot
  watches : WatchGraph FollowUp

namespace View

/-- The result of a node in its cache. -/
def result? (v : View) (x : Node) : Option Outcome :=
  ((v.slots x).bind Slot.seen).bind Entry.result?

/-- The view after a change of one slot. -/
def put (v : View) (x : Node) (s : Option Slot) : View :=
  { v with slots := Function.update v.slots x s }

/-- A slot is no part of the outline. -/
@[simp] theorem put_outline (v : View) (x : Node) (s : Option Slot) :
    (v.put x s).outline = v.outline := rfl

/-- A slot is no part of the watch graph. -/
@[simp] theorem put_watches (v : View) (x : Node) (s : Option Slot) :
    (v.put x s).watches = v.watches := rfl

/-- The slot that was put is there. -/
@[simp] theorem put_slots_self (v : View) (x : Node) (s : Option Slot) :
    (v.put x s).slots x = s := Function.update_self ..

/-- The other slots are as before. -/
theorem put_slots_ne (v : View) {x y : Node} (h : y ≠ x) (s : Option Slot) :
    (v.put x s).slots y = v.slots y := Function.update_of_ne h ..

/-- The slot that was put last is the one that is there. -/
theorem put_put (v : View) (x : Node) (s t : Option Slot) : (v.put x s).put x t = v.put x t := by
  simp [put]

/-- Putting what is there changes nothing. -/
theorem put_eq_self {v : View} {x : Node} {s : Option Slot} (h : v.slots x = s) :
    v.put x s = v := by
  subst h
  simp [put]

/-- Fields whose slots agree have the same results. -/
theorem result?_congr {v w : View} {x : Node} (h : w.slots x = v.slots x) :
    w.result? x = v.result? x := by
  rw [result?, h, result?]

/-- A stored entry gives the result of the field. -/
theorem result?_of_stored {v : View} {x : Node} {e : Entry} (h : v.slots x = some (.stored e)) :
    v.result? x = e.result? := by
  simp [result?, h, Slot.seen]

end View

namespace Instance

/-- An instance without its cache. -/
def member (i : Instance) : Member := ⟨i.kind, i.id, i.discarded⟩

end Instance

namespace Session

/-- The instances of a session and how they are found. -/
def outline (s : Session) : Outline :=
  ⟨s.catalog, s.config, s.live, s.instances.map Instance.member, s.published⟩

/-- The slot of a node. -/
def slot? (s : Session) (x : Node) : Option Slot :=
  (s.instance? x.1).bind fun i => i.cache.slot? x.2

/-- What of the session decides its answers. -/
def view (s : Session) : View := ⟨s.outline, s.slot?, s.watches⟩

/-- The session after a watch. -/
def watching (s : Session) (address watcher : String) (f : FollowUp) : Session :=
  { s with watches := (s.watches.watch address watcher f).2 }

variable {s : Session} {n : Nat} {i : Instance} {m : Member}

/-- The outline has a member for every instance. -/
theorem member?_outline (s : Session) (n : Nat) :
    s.outline.member? n = (s.instance? n).map Instance.member := by
  simp [outline, Outline.member?, instance?]

/-- An instance is a member of the outline. -/
theorem member?_of_instance (h : s.instance? n = some i) :
    s.view.outline.member? n = some i.member := by
  rw [view, member?_outline, h, Option.map_some]

/-- Every member is that of an instance. -/
theorem instance_of_member? (h : s.view.outline.member? n = some m) :
    ∃ i, s.instance? n = some i ∧ i.member = m := by
  rw [view, member?_outline] at h
  exact Option.map_eq_some_iff.1 h

/-- The slots of an instance are those of its cache. -/
theorem slots_of_instance (h : s.instance? n = some i) (field : String) :
    s.view.slots (n, field) = i.cache.slot? field := by
  simp [view, slot?, h]

/-- The results of an instance are those of its cache. -/
theorem result?_of_instance (h : s.instance? n = some i) (field : String) :
    s.view.result? (n, field) = i.cache.result? field := by
  rw [View.result?, slots_of_instance h]
  rfl

/-- The journal is not seen. -/
@[simp] theorem view_record (s : Session) (e : Event) : (s.record e).view = s.view := rfl

@[simp] theorem instance?_record (s : Session) (e : Event) (n : Nat) :
    (s.record e).instance? n = s.instance? n := rfl

@[simp] theorem view_watches (s : Session) : s.view.watches = s.watches := rfl

@[simp] theorem now_setCache (s : Session) (n : Nat) (c : Cache) : (s.setCache n c).now = s.now :=
  rfl

/-- Setting one cache leaves the other instances as they are. -/
theorem instance?_setCache (h : s.instance? n = some i) (c : Cache) (k : Nat) :
    (s.setCache n c).instance? k
      = if n = k then some { i with cache := c } else s.instance? k := by
  simp only [setCache, modifyInstance, instance?, List.getElem?_modify]
  split
  · next hk =>
    subst hk
    have h : s.instances[n]? = some i := h
    rw [h]
    rfl
  · simp

/-- Setting the cache that is there changes nothing. -/
theorem setCache_self (h : s.instance? n = some i) : s.setCache n i.cache = s := by
  have hinstances : (s.setCache n i.cache).instances = s.instances := by
    apply List.ext_getElem?
    intro k
    have hk := instance?_setCache h i.cache k
    simp only [instance?] at hk
    rw [hk]
    split
    · next heq =>
      subst heq
      exact h.symm
    · rfl
  show { s with instances := (s.setCache n i.cache).instances } = s
  rw [hinstances]

/-- A change of one instance changes one member, as the outline sees it. -/
theorem outline_modifyInstance {f : Instance → Instance} {g : Member → Member}
    (h : ∀ i, (f i).member = g i.member) (s : Session) (n : Nat) :
    (s.modifyInstance n f).outline
      = { s.outline with members := s.outline.members.modify n g } := by
  have hmembers : (s.instances.modify n f).map Instance.member
      = (s.instances.map Instance.member).modify n g := by
    apply List.ext_getElem?
    intro j
    simp only [List.getElem?_map, List.getElem?_modify]
    by_cases hj : n = j
    · subst hj
      cases s.instances[n]? <;> simp [h]
    · cases s.instances[j]? <;> simp [hj]
  simp only [outline, modifyInstance, hmembers]

/-- An instance changes nothing but its cache. -/
theorem outline_modifyInstance_self {f : Instance → Instance} (h : ∀ i, (f i).member = i.member)
    (s : Session) (n : Nat) : (s.modifyInstance n f).outline = s.outline := by
  rw [outline_modifyInstance (g := id) h]
  have hsame : s.outline.members.modify n id = s.outline.members := by
    apply List.ext_getElem?
    intro j
    rw [List.getElem?_modify]
    cases s.outline.members[j]? <;> simp
  rw [hsame]

/-- The outline does not see caches. -/
theorem outline_setCache (s : Session) (n : Nat) (c : Cache) :
    (s.setCache n c).outline = s.outline :=
  outline_modifyInstance_self (f := fun i => { i with cache := c }) (fun _ => rfl) s n

/-- **A change of one slot of a cache is a change of one slot of the view.** -/
theorem view_setSlot (h : s.instance? n = some i) (field : String) (sl : Option Slot) :
    (s.setCache n (i.cache.setSlot field sl)).view = s.view.put (n, field) sl := by
  unfold view View.put
  rw [outline_setCache]
  congr 1
  funext x
  obtain ⟨k, g⟩ := x
  simp only [slot?, instance?_setCache h, Function.update_apply, Prod.mk.injEq]
  by_cases hk : k = n
  · subst hk
    simp only [if_true, Option.bind_some, Cache.slot?_setSlot, h, true_and]
    by_cases hg : g = field
    · simp [hg]
    · simp [hg, Ne.symm hg]
  · simp [hk, Ne.symm hk]

end Session

end LazyFields
