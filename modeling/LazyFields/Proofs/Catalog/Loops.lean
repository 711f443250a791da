/-
  LazyFields.Proofs.Catalog.Loops
  ────────────────────────────────
  **LOOPS THAT COME ABOUT WHEN SCHEMAS ARE PUT TOGETHER.**

  A file is checked for cycles on its own.  Merging schemas, and loading them
  into a catalog, puts the fields of several files into one graph, and nothing
  is checked again.  A reference is OPEN when the schema in which its field is
  kept lacks the field that it names: it goes to a resource that the file only
  extends, or to another file.

    · `no_loop` — a loop in which owners never decrease has one owner
    · `field?_mergeAll` — a merged field is that of the first schema with it
    · `checkAcyclic_iff_links` — the check, said of fields and not of their texts
    · `checkAcyclic_mergeAll_iff` — every loop of a merged schema has an open link

  Open links do close loops (`loading_closes_loops`): two files that extend one
  resource, and two packs that import each other, of which even the check of
  the merged schema sees nothing.
-/
import LazyFields.Proofs.Catalog.Loaded
import LazyFields.Proofs.Schema.DependencyCycle

namespace LazyFields

open LazyFields.Source
open Relation (TransGen ReflTransGen)

/-! ## §1. Loops through several owners. -/

section Owners

variable {α : Type} {R : α → α → Prop} {S : Nat → α → α → Prop} {own : α → Nat} {a b : α}

/-- The link lies on a loop. -/
def OnLoop (R : α → α → Prop) (a b : α) : Prop := R a b ∧ ReflTransGen R b a

/-- All links of a loop lie on one. -/
theorem transGen_onLoop (h : TransGen R a b) (hback : ReflTransGen R b a) :
    TransGen (OnLoop R) a b := by
  induction h with
  | single hlink => exact .single ⟨hlink, hback⟩
  | tail hpath hlink ih =>
    exact (ih (.head hlink hback)).tail ⟨hlink, hback.trans hpath.to_reflTransGen⟩

/-- Owners that do not decrease on a loop are the same all along it. -/
theorem own_eq_of_onLoop (hown : ∀ a b, OnLoop R a b → own a ≤ own b) (h : OnLoop R a b) :
    own a = own b := by
  have hmono : ∀ {a b}, TransGen (OnLoop R) a b → own a ≤ own b := by
    intro a b hpath
    induction hpath with
    | single hlink => exact hown _ _ hlink
    | tail _ hlink ih => exact ih.trans (hown _ _ hlink)
  refine le_antisymm (hown a b h) ?_
  obtain ⟨hlink, hback⟩ := h
  rcases Relation.reflTransGen_iff_eq_or_transGen.1 hback with heq | hpath
  · rw [heq]
  · exact hmono (transGen_onLoop hpath (.single hlink))

/-- **There is no loop if no owner has one** and owners do not decrease on loops. -/
theorem no_loop (hS : ∀ n a, ¬ TransGen (S n) a a)
    (hown : ∀ a b, OnLoop R a b → own a ≤ own b)
    (hsame : ∀ a b, OnLoop R a b → own a = own b → S (own a) a b) (a : α) : ¬ TransGen R a a := by
  intro hloop
  have hinside : ∀ b, TransGen (OnLoop R) a b → own a = own b ∧ TransGen (S (own a)) a b := by
    intro b hpath
    induction hpath with
    | single hlink =>
      have heq := own_eq_of_onLoop hown hlink
      exact ⟨heq, .single (hsame _ _ hlink heq)⟩
    | tail _ hlink ih =>
      obtain ⟨heq, hpath⟩ := ih
      have hnext := own_eq_of_onLoop hown hlink
      refine ⟨heq.trans hnext, hpath.tail ?_⟩
      rw [heq]
      exact hsame _ _ hlink hnext
  exact hS _ a (hinside a (transGen_onLoop hloop .refl)).2

end Owners

namespace Schema

/-! ## §2. The fields of merged schemas. -/

/-- The field of a resource, both by name. -/
def field? (s : Schema) (p : String × String) : Option FieldSpec :=
  (s.resources.get? p.1).bind fun info => info.fields.get? p.2

/-- Schemas, merged one after the other. -/
def mergeAll (schemas : List Schema) : Schema := schemas.foldl merge ∅

/-- The place of the first schema that has the field. -/
def keptAt (schemas : List Schema) (p : String × String) : Nat :=
  schemas.findIdx fun s => (s.field? p).isSome

section Merged

variable {s t : Schema} {schemas : List Schema} {p q : String × String}

/-- What merging keeps holds of all the schemas, merged. -/
theorem mergeAll_induction {P : Schema → Prop} (hempty : P ∅)
    (hmerge : ∀ s t, P s → P t → P (s.merge t)) (h : ∀ s ∈ schemas, P s) :
    P (mergeAll schemas) :=
  List.foldlRecOn schemas merge hempty fun s hs t ht => hmerge s t hs (h t ht)

/-- A merged field is that of the first schema, or else that of the second. -/
theorem field?_merge : (s.merge t).field? p = (s.field? p).or (t.field? p) := by
  unfold field? merge
  dsimp only
  rw [Table.get?_mergeWith]
  cases hs : s.resources.get? p.1 with
  | none => cases ht : t.resources.get? p.1 <;> simp
  | some ours =>
    cases ht : t.resources.get? p.1 with
    | none => simp
    | some theirs =>
      simp only [Option.merge_some_some, Option.bind_some, ResourceSpec.merge,
        Table.get?_mergeWith]
      cases ours.fields.get? p.2 <;> cases theirs.fields.get? p.2 <;> rfl

/-- **A merged field is that of the first schema which has it.** -/
theorem field?_mergeAll :
    (mergeAll schemas).field? p = schemas[keptAt schemas p]?.bind fun s => s.field? p := by
  have hfold : ∀ (schemas : List Schema) (s : Schema), (schemas.foldl merge s).field? p
      = (s.field? p).or (schemas[keptAt schemas p]?.bind fun s => s.field? p) := by
    intro schemas
    induction schemas with
    | nil => intro s; simp
    | cons t schemas ih =>
      intro s
      rw [List.foldl_cons, ih, field?_merge, Option.or_assoc]
      cases ht : t.field? p <;> simp [keptAt, List.findIdx_cons, ht]
  exact hfold schemas ∅

/-- A field is kept at the first schema that has it. -/
theorem keptAt_le {n : Nat} (hs : schemas[n]? = some s) (hp : (s.field? p).isSome = true) :
    keptAt schemas p ≤ n := by
  by_contra hlt
  obtain ⟨hn, rfl⟩ := List.getElem?_eq_some_iff.1 hs
  have hnot := List.not_of_lt_findIdx (Nat.lt_of_not_le hlt)
  simp [hp] at hnot

end Merged

/-! ## §3. Links between fields. -/

/-- Resources are kept under their own ids. -/
def Named (s : Schema) : Prop :=
  ∀ id info, s.resources.get? id = some info → info.id = id

/-- Resources and fields are kept under their own names, and static fields
refer to nothing. -/
structure Orderly (s : Schema) : Prop where
  named : ∀ {id info}, s.resources.get? id = some info → info.id = id
  fieldName : ∀ {p spec}, s.field? p = some spec → spec.name = p.2
  static : ∀ {p spec}, s.field? p = some spec → spec.isStatic = true → spec.refs = []

/-- The field is computed. -/
def Computes (s : Schema) (p : String × String) : Prop :=
  ∃ spec, s.field? p = some spec ∧ spec.isStatic = false

/-- Both fields are computed, and the second refers to the text of the first. -/
def Links (s : Schema) (p q : String × String) : Prop :=
  s.Computes p ∧ ∃ spec, s.field? q = some spec ∧ spec.isStatic = false
    ∧ ∃ reference ∈ spec.refs, refNode q.1 reference = fieldNode p.1 p.2

/-- The schemas, merged, link the fields, and the schema in which the second is
kept lacks the first. -/
def OpenLink (schemas : List Schema) (p q : String × String) : Prop :=
  (mergeAll schemas).Links p q ∧ ∀ s, schemas[keptAt schemas q]? = some s → s.field? p = none

section Check

variable {s t : Schema} {schemas : List Schema} {p q : String × String} {a b : String}

/-- The schema of a file is orderly. -/
theorem orderly_of_schema {file : File} (h : file.schema = .ok s) : s.Orderly := by
  have hm := merged_of_schema h
  have hfield : ∀ {p : String × String} {spec : FieldSpec}, s.field? p = some spec →
      spec.name = p.2 ∧ (spec.isStatic = true → spec.refs = []) := by
    intro p spec hspec
    obtain ⟨info, hinfo, hspec⟩ := Option.bind_eq_some_iff.1 hspec
    obtain ⟨d, -, f, -, hname, hbuild⟩ := ((hm.content hinfo).2.field _ _).1 hspec
    obtain ⟨hown, hstatic⟩ := buildField_sound hbuild
    exact ⟨hown.trans hname, hstatic⟩
  exact ⟨fun hinfo => (hm.content hinfo).1, fun hspec => (hfield hspec).1,
    fun hspec => (hfield hspec).2⟩

/-- A merged resource has the id that it has in either schema. -/
theorem Named.merge (h : s.Named) (ht : t.Named) : (s.merge t).Named := by
  intro id info hinfo
  obtain hours | htheirs | ⟨ours, theirs, hours, -, rfl⟩ := Table.mergeWith_cases hinfo
  · exact h id info hours
  · exact ht id info htheirs
  · exact h id ours hours

/-- Merging keeps schemas orderly. -/
theorem Orderly.merge (h : s.Orderly) (ht : t.Orderly) : (s.merge t).Orderly := by
  have hfield : ∀ {p : String × String} {spec : FieldSpec}, (s.merge t).field? p = some spec →
      s.field? p = some spec ∨ t.field? p = some spec := by
    intro p spec hspec
    rw [field?_merge, Option.or_eq_some_iff] at hspec
    exact hspec.imp id And.right
  have hours : s.Named := fun _ _ hinfo => h.named hinfo
  refine ⟨fun hinfo => hours.merge (fun _ _ hinfo => ht.named hinfo) _ _ hinfo, ?_, ?_⟩
  · intro p spec hspec
    rcases hfield hspec with hspec | hspec
    · exact h.fieldName hspec
    · exact ht.fieldName hspec
  · intro p spec hspec
    rcases hfield hspec with hspec | hspec
    · exact h.static hspec
    · exact ht.static hspec

/-- Orderly schemas, merged, are orderly. -/
theorem orderly_mergeAll (h : ∀ s ∈ schemas, s.Orderly) : (mergeAll schemas).Orderly := by
  refine mergeAll_induction ⟨?_, ?_, ?_⟩ (fun s t hs ht => hs.merge ht) h
  · intro id info hinfo
    cases hinfo
  · intro p spec hspec
    cases hspec
  · intro p spec hspec
    cases hspec

/-- A computed field and its text. -/
theorem Orderly.hasComputed_iff (h : s.Orderly) {id node : String} :
    (∃ spec, s.HasComputed id spec ∧ node = id ++ "." ++ spec.name)
      ↔ ∃ name, s.Computes (id, name) ∧ node = fieldNode id name := by
  constructor
  · intro hcomputed
    obtain ⟨spec, ⟨info, key, hinfo, hkey, hstatic⟩, rfl⟩ := hcomputed
    have hspec : s.field? (id, key) = some spec := by simp [field?, hinfo, hkey]
    refine ⟨key, ⟨spec, hspec, hstatic⟩, ?_⟩
    rw [h.fieldName hspec]
    rfl
  · intro hcomputed
    obtain ⟨name, ⟨spec, hspec, hstatic⟩, rfl⟩ := hcomputed
    obtain ⟨info, hinfo, hkey⟩ := Option.bind_eq_some_iff.1 hspec
    refine ⟨spec, ⟨info, name, hinfo, hkey, hstatic⟩, ?_⟩
    rw [h.fieldName hspec]
    rfl

/-- A text feeds another one when fields of these texts are linked. -/
theorem Orderly.feeds_iff (h : s.Orderly) :
    s.Feeds a b ↔ ∃ p q, s.Links p q ∧ fieldNode p.1 p.2 = a ∧ fieldNode q.1 q.2 = b := by
  constructor
  · intro hfeeds
    obtain ⟨⟨id, spec, hspec, rfl⟩, id', spec', ⟨info, key, hinfo, hkey, hstatic⟩, rfl, reference,
      href, hdenotes⟩ := hfeeds
    obtain ⟨name, hcomputes, hnode⟩ := h.hasComputed_iff.1 ⟨spec, hspec, rfl⟩
    have hfield : s.field? (id', key) = some spec' := by simp [field?, hinfo, hkey]
    refine ⟨(id, name), (id', key), ⟨hcomputes, spec', hfield, hstatic, reference, href, ?_⟩,
      hnode.symm, ?_⟩
    · rw [← hnode]
      exact refNode_eq_iff.2 hdenotes
    · rw [h.fieldName hfield]
      rfl
  · intro hlinks
    obtain ⟨p, q, ⟨hp, spec, hspec, hstatic, reference, href, hnode⟩, rfl, rfl⟩ := hlinks
    obtain ⟨spec', hspec', hnode'⟩ := h.hasComputed_iff.2 ⟨p.2, hp, rfl⟩
    obtain ⟨info, hinfo, hkey⟩ := Option.bind_eq_some_iff.1 hspec
    refine ⟨⟨p.1, spec', hspec', hnode'⟩, q.1, spec, ⟨info, q.2, hinfo, hkey, hstatic⟩, ?_,
      reference, href, refNode_eq_iff.1 hnode⟩
    rw [h.fieldName hspec]
    rfl

/-- Along links, the texts of the fields feed one another. -/
theorem Orderly.feeds_of_links (h : s.Orderly) (hpath : TransGen s.Links p q) :
    TransGen s.Feeds (fieldNode p.1 p.2) (fieldNode q.1 q.2) :=
  hpath.lift (fun p => fieldNode p.1 p.2) fun p q hlinks => h.feeds_iff.2 ⟨p, q, hlinks, rfl, rfl⟩

/-- A link starts at any computed field of the text. -/
theorem Links.from_text (h : s.Links p q) {p' : String × String} (hp' : s.Computes p')
    (hnode : fieldNode p'.1 p'.2 = fieldNode p.1 p.2) : s.Links p' q := by
  obtain ⟨-, spec, hspec, hstatic, reference, href, htext⟩ := h
  exact ⟨hp', spec, hspec, hstatic, reference, href, htext.trans hnode.symm⟩

/-- A path of links ends at a computed field. -/
theorem computes_of_path (hpath : TransGen s.Links p q) : s.Computes q := by
  obtain ⟨_, -, -, spec, hspec, hstatic, -⟩ := Relation.TransGen.tail'_iff.1 hpath
  exact ⟨spec, hspec, hstatic⟩

/-- A way through texts is one through fields. -/
theorem Orderly.links_of_feeds (h : s.Orderly) (hpath : TransGen s.Feeds a b) :
    ∃ p q, TransGen s.Links p q ∧ fieldNode p.1 p.2 = a ∧ fieldNode q.1 q.2 = b := by
  induction hpath with
  | single hfeeds =>
    obtain ⟨p, q, hlinks, hp, hq⟩ := h.feeds_iff.1 hfeeds
    exact ⟨p, q, .single hlinks, hp, hq⟩
  | tail _ hfeeds ih =>
    obtain ⟨p, q, hpath, hp, hq⟩ := ih
    obtain ⟨q', r, hlinks, hq', hr⟩ := h.feeds_iff.1 hfeeds
    have hnext := hlinks.from_text (computes_of_path hpath) (hq.trans hq'.symm)
    exact ⟨p, r, hpath.tail hnext, hp, hr⟩

/-- **The check finds the loops of fields.** -/
theorem Orderly.checkAcyclic_iff_links (h : s.Orderly) :
    s.checkAcyclic = .ok () ↔ ∀ p, ¬ TransGen s.Links p p := by
  rw [checkAcyclic_isOk_iff_residue, Graph.residue_eq_nil_iff s.closed_graph, leads_eq_feeds]
  constructor
  · intro hacyclic p hloop
    exact hacyclic _ (h.feeds_of_links hloop)
  · intro hacyclic node hloop
    obtain ⟨p, q, hpath, hp, hq⟩ := h.links_of_feeds hloop
    -- the way ends in a field of the text it started from, so it can go on from there
    obtain ⟨next, hfirst, hrest⟩ := Relation.TransGen.head'_iff.1 hpath
    have hagain := hfirst.from_text (computes_of_path hpath) (hq.trans hp.symm)
    exact hacyclic q (.head' hagain hrest)

end Check

/-! ## §4. Loops have open links. -/

section Open

variable {s : Schema} {schemas : List Schema} {p q : String × String}

/-- A merged field that is computed is kept in one of the schemas. -/
theorem kept_of_computes (h : (mergeAll schemas).Computes p) :
    ∃ s, schemas[keptAt schemas p]? = some s ∧ s.field? p = (mergeAll schemas).field? p
      ∧ (s.field? p).isSome = true := by
  obtain ⟨spec, hspec, -⟩ := h
  obtain ⟨s, hs, hfield⟩ := Option.bind_eq_some_iff.1 (field?_mergeAll.symm.trans hspec)
  exact ⟨s, hs, hfield.trans hspec.symm, by simp [hfield]⟩

/-- Both ends of a link are computed. -/
theorem Links.computes (h : s.Links p q) : s.Computes p ∧ s.Computes q := by
  obtain ⟨hp, spec, hspec, hstatic, -⟩ := h
  exact ⟨hp, spec, hspec, hstatic⟩

/-- Two schemas that agree on two fields link them alike. -/
theorem Links.congr {t : Schema} (h : s.Links p q) (hp : t.field? p = s.field? p)
    (hq : t.field? q = s.field? q) : t.Links p q := by
  obtain ⟨⟨source, hsource, hcomputed⟩, spec, hspec, hrest⟩ := h
  exact ⟨⟨source, hp.trans hsource, hcomputed⟩, spec, hq.trans hspec, hrest⟩

/-- The schema at the place links the fields. -/
def LinksAt (schemas : List Schema) (n : Nat) (p q : String × String) : Prop :=
  ∃ s, schemas[n]? = some s ∧ s.Links p q

/-- Links kept at one schema do not close a loop. -/
theorem not_linksAt_loop (horderly : ∀ s ∈ schemas, s.Orderly)
    (hacyclic : ∀ s ∈ schemas, s.checkAcyclic = .ok ()) (n : Nat) (p : String × String) :
    ¬ TransGen (LinksAt schemas n) p p := by
  intro hloop
  obtain ⟨_, -, s, hs, -⟩ := Relation.TransGen.tail'_iff.1 hloop
  have hmem : s ∈ schemas := List.mem_of_getElem? hs
  refine (horderly s hmem).checkAcyclic_iff_links.1 (hacyclic s hmem) p
    (Relation.TransGen.mono ?_ _ _ hloop)
  intro a b hlinked
  obtain ⟨t, ht, hlinks⟩ := hlinked
  obtain rfl : s = t := Option.some.inj (hs.symm.trans ht)
  exact hlinks

/-- What is linked, but not openly, is kept no later than what refers to it. -/
theorem keptAt_le_of_links (h : (mergeAll schemas).Links p q) (hclosed : ¬ OpenLink schemas p q) :
    keptAt schemas p ≤ keptAt schemas q := by
  obtain ⟨s, hs, -⟩ := kept_of_computes h.computes.2
  refine keptAt_le hs ?_
  by_contra hnot
  refine hclosed ⟨h, fun t ht => ?_⟩
  obtain rfl : s = t := Option.some.inj (hs.symm.trans ht)
  simpa using hnot

/-- Fields that are kept at one place are linked there. -/
theorem linksAt_of_keptAt_eq (h : (mergeAll schemas).Links p q)
    (hsame : keptAt schemas p = keptAt schemas q) : LinksAt schemas (keptAt schemas p) p q := by
  obtain ⟨hp, hq⟩ := h.computes
  obtain ⟨s, hs, hps, -⟩ := kept_of_computes hp
  obtain ⟨t, ht, hqt, -⟩ := kept_of_computes hq
  obtain rfl : s = t := by
    rw [← hsame, hs] at ht
    exact Option.some.inj ht
  exact ⟨s, hs, h.congr hps hqt⟩

/-- **Merged schemas are acyclic** exactly when no open link lies on a loop.  The
owner of a field is the place of the schema in which it is kept. -/
theorem checkAcyclic_mergeAll_iff (horderly : ∀ s ∈ schemas, s.Orderly)
    (hacyclic : ∀ s ∈ schemas, s.checkAcyclic = .ok ()) :
    (mergeAll schemas).checkAcyclic = .ok ()
      ↔ ∀ p q, OpenLink schemas p q → ¬ ReflTransGen (mergeAll schemas).Links q p := by
  rw [(orderly_mergeAll horderly).checkAcyclic_iff_links]
  constructor
  · intro hnone p q hopen hback
    exact hnone p (.head' hopen.1 hback)
  · intro hopen
    have hown : ∀ p q, OnLoop (mergeAll schemas).Links p q →
        keptAt schemas p ≤ keptAt schemas q := fun p q honloop =>
      keptAt_le_of_links honloop.1 fun hlink => hopen p q hlink honloop.2
    have hsame : ∀ p q, OnLoop (mergeAll schemas).Links p q →
        keptAt schemas p = keptAt schemas q → LinksAt schemas (keptAt schemas p) p q :=
      fun p q honloop => linksAt_of_keptAt_eq honloop.1
    exact no_loop (not_linksAt_loop horderly hacyclic) hown hsame

end Open

end Schema

/-! ## §5. Loading. -/

namespace Catalog

open Schema (OpenLink mergeAll)

section Load

variable {c : Catalog} {p q : String × String}

/-- A catalog that loads schemas has their merge for its schema, and no packs. -/
theorem schema_loadAll (schemas : List Schema) :
    (schemas.foldl load ∅).schema = mergeAll schemas ∧ (schemas.foldl load ∅).packs = ∅ := by
  have hfold : ∀ (schemas : List Schema) (c : Catalog),
      (schemas.foldl load c).schema = schemas.foldl Schema.merge c.schema
        ∧ (schemas.foldl load c).packs = c.packs := by
    intro schemas
    induction schemas with
    | nil => exact fun c => ⟨rfl, rfl⟩
    | cons s schemas ih =>
      intro c
      obtain ⟨hschema, hpacks⟩ := ih (c.load s)
      rw [schema_load] at hschema
      exact ⟨hschema, hpacks⟩
  exact hfold schemas ∅

/-- At run time, the first field is computed from the second.  A resource is
looked up in the catalog, packs included. -/
inductive Needs (c : Catalog) : String × String → String × String → Prop
  | own {kind field target : String} {spec : FieldSpec} {reference : String} :
      c.field? (kind, field) = some spec → reference ∈ spec.refs →
      splitReference reference = (none, target) → Needs c (kind, field) (kind, target)
  | other {kind field resource target : String} {spec : FieldSpec} {reference : String} {k : Kind} :
      c.field? (kind, field) = some spec → reference ∈ spec.refs →
      splitReference reference = (some resource, target) → c.get resource = .ok k →
      Needs c (kind, field) (k.name, target)

/-- The schema of a catalog has the fields of its kinds. -/
theorem field?_schema (c : Catalog) (p : String × String) : c.schema.field? p = c.field? p := by
  unfold Schema.field? field? Catalog.schema
  rw [Table.get?_map]
  cases c.kinds.get? p.1 <;> rfl

/-- What needs a field is computed. -/
theorem computes_of_needs (horderly : c.schema.Orderly) (h : c.Needs p q) :
    c.schema.Computes p := by
  have hcomputed : ∀ {spec reference}, c.field? p = some spec → reference ∈ spec.refs →
      c.schema.Computes p := by
    intro spec reference hspec href
    have hfield : c.schema.field? p = some spec := (field?_schema c p).trans hspec
    refine ⟨spec, hfield, ?_⟩
    cases hstatic : spec.isStatic with
    | false => rfl
    | true =>
      rw [horderly.static hfield hstatic] at href
      cases href
  cases h with
  | own hspec href _ => exact hcomputed hspec href
  | other hspec href _ _ => exact hcomputed hspec href

/-- Without packs, what a computed field needs is linked to it. -/
theorem links_of_needs (horderly : c.schema.Orderly) (hpacks : c.packs = ∅) (h : c.Needs p q)
    (hq : c.schema.Computes q) : c.schema.Links q p := by
  obtain ⟨spec, hspec, hstatic⟩ := computes_of_needs horderly h
  refine ⟨hq, spec, hspec, hstatic, ?_⟩
  rw [field?_schema] at hspec
  cases h with
  | @own kind field target spec' reference hspec' href hsplit =>
    obtain rfl : spec' = spec := Option.some.inj (hspec'.symm.trans hspec)
    refine ⟨reference, href, ?_⟩
    simp [refNode, hsplit]
  | @other kind field resource target spec' reference k hspec' href hsplit hk =>
    obtain rfl : spec' = spec := Option.some.inj (hspec'.symm.trans hspec)
    -- without packs the resource is a kind by its own name
    have hkind : c.kinds.get? resource = some k := by
      have hpack : c.withoutPack? resource = none := by
        unfold withoutPack?
        rw [hpacks]
        cases Text.splitFirst? '.' resource <;> rfl
      unfold Catalog.get lookup? at hk
      rw [hpack, Option.bind_none, Option.or_none] at hk
      cases hget : c.kinds.get? resource with
      | none => simp [hget] at hk
      | some k' =>
        simp only [hget, Except.ok.injEq] at hk
        rw [hk]
    have hname : k.name = resource := by
      refine @Schema.Orderly.named c.schema horderly resource k.info ?_
      show (c.kinds.map Kind.info).get? resource = _
      rw [Table.get?_map, hkind, Option.map_some]
    refine ⟨reference, href, ?_⟩
    rw [hname, splitReference_of_some hsplit]
    simp [refNode, splitReference_of_some hsplit ▸ hsplit, fieldNode]

/-- Without packs, a catalog whose schema is acyclic has no loop at run time. -/
theorem not_needs_loop (horderly : c.schema.Orderly) (hpacks : c.packs = ∅)
    (hacyclic : c.schema.checkAcyclic = .ok ()) (p : String × String) : ¬ TransGen c.Needs p p := by
  intro hloop
  refine horderly.checkAcyclic_iff_links.1 hacyclic p (Relation.transGen_swap.1 ?_)
  refine Relation.TransGen.mono (fun a b honloop => ?_) _ _ (transGen_onLoop hloop .refl)
  obtain ⟨hneeds, hback⟩ := honloop
  -- on a loop, the second field needs something as well
  obtain ⟨next, hnext, -⟩ := Relation.TransGen.head'_iff.1 (Relation.TransGen.tail' hback hneeds)
  exact links_of_needs horderly hpacks hneeds (computes_of_needs horderly hnext)

end Load

/-! ## §6. What loading can close. -/

/-- **Loading closes a loop only through an open link.**  The catalog that loads
the schemas of accepted files, in any order, has their merged schema.  This one
is accepted exactly when no open link lies on a loop, and if it is accepted,
nothing that is computed at run time needs itself. -/
theorem loaded_acyclic_iff {schemas : List Schema}
    (h : ∀ s ∈ schemas, ∃ file : File, file.schema = .ok s) :
    (schemas.foldl load ∅).schema = mergeAll schemas
      ∧ ((mergeAll schemas).checkAcyclic = .ok ()
        ↔ ∀ p q, OpenLink schemas p q → ¬ ReflTransGen (mergeAll schemas).Links q p)
      ∧ ((mergeAll schemas).checkAcyclic = .ok () →
        ∀ p, ¬ TransGen (schemas.foldl load ∅).Needs p p) := by
  have horderly : ∀ s ∈ schemas, s.Orderly := by
    intro s hs
    obtain ⟨file, hfile⟩ := h s hs
    exact Schema.orderly_of_schema hfile
  have haccepted : ∀ s ∈ schemas, s.checkAcyclic = .ok () := by
    intro s hs
    obtain ⟨file, hfile⟩ := h s hs
    exact (parts_of_schema hfile).2.2
  obtain ⟨hschema, hpacks⟩ := schema_loadAll schemas
  refine ⟨hschema, Schema.checkAcyclic_mergeAll_iff horderly haccepted, fun hacyclic => ?_⟩
  refine not_needs_loop ?_ hpacks ?_
  · rw [hschema]
    exact Schema.orderly_mergeAll horderly
  · rw [hschema, hacyclic]

/-- A file with one declaration, of text fields. -/
def textFile (isExtension : Bool) (id : String) (fields : List (String × Option (List String)))
    (packs : Table Pack) : File where
  imports := []
  options := ∅
  resources :=
    [{ comments := [], isPrivate := false, isExtension, id, defaults := none, list := none,
       body := fields.map fun f => ⟨[], .field ⟨f.1, f.2, some (.named "string")⟩, ⟨1, 1⟩⟩,
       pos := ⟨1, 1⟩ }]
  packs

/-- The schema of a file. -/
def schemaOf (file : File) : Schema := file.schema.toOption.getD ∅

/-- A resource, and an extension that refers to it. -/
def baseAndExtension : List File :=
  [textFile false "r" [("s", none), ("g", some ["s"])] ∅, textFile true "r" [("f", some ["g"])] ∅]

theorem loaded_acyclic_iff_extension :
    (∀ s ∈ baseAndExtension.map schemaOf, ∃ file : File, file.schema = .ok s)
      ∧ ((baseAndExtension.map schemaOf).foldl load ∅).schema
        = mergeAll (baseAndExtension.map schemaOf)
      ∧ ((mergeAll (baseAndExtension.map schemaOf)).checkAcyclic = .ok ()
        ↔ ∀ p q, OpenLink (baseAndExtension.map schemaOf) p q →
          ¬ ReflTransGen (mergeAll (baseAndExtension.map schemaOf)).Links q p)
      ∧ ((mergeAll (baseAndExtension.map schemaOf)).checkAcyclic = .ok () →
        ∀ p, ¬ TransGen ((baseAndExtension.map schemaOf).foldl load ∅).Needs p p) := by
  have haccepted : ∀ file ∈ baseAndExtension, file.schema = .ok (schemaOf file) := by
    decide +kernel
  have h : ∀ s ∈ baseAndExtension.map schemaOf, ∃ file : File, file.schema = .ok s := by
    intro s hs
    obtain ⟨file, hfile, rfl⟩ := List.mem_map.1 hs
    exact ⟨file, haccepted file hfile⟩
  exact ⟨h, loaded_acyclic_iff h⟩

/-- A resource, and two extensions that refer to each other. -/
def crossing : List File :=
  [textFile false "r" [("s", none)] ∅, textFile true "r" [("f", some ["g"])] ∅,
    textFile true "r" [("g", some ["f"])] ∅]

/-- The pack `a`, which imports the pack `b`. -/
def packA : File :=
  textFile false "x" [("f", some ["b.y.g"])] (Table.ofList [("b", ⟨Table.ofNames ["y"], "b"⟩)])

/-- The pack `b`, which imports the pack `a`. -/
def packB : File :=
  textFile false "y" [("g", some ["a.x.f"])] (Table.ofList [("a", ⟨Table.ofNames ["x"], "a"⟩)])

/-- Both packs, loaded. -/
def twoPacks : Catalog := (loadPack ∅ "a" (schemaOf packA)).loadPack "b" (schemaOf packB)

/-- The schemas of accepted files can have a cycle when they are merged, and a
catalog can compute in a circle although its schema is accepted. -/
theorem loading_closes_loops :
    (¬ ∀ schemas : List Schema, (∀ s ∈ schemas, ∃ file : File, file.schema = .ok s) →
      (mergeAll schemas).checkAcyclic = .ok ())
    ∧ ¬ ∀ c : Catalog, c.Loaded → c.schema.checkAcyclic = .ok () → ∀ p, ¬ TransGen c.Needs p p := by
  constructor
  · intro h
    have haccepted : ∀ file ∈ crossing, file.schema = .ok (schemaOf file) := by decide +kernel
    have hacyclic := h (crossing.map schemaOf) fun s hs => by
      obtain ⟨file, hfile, rfl⟩ := List.mem_map.1 hs
      exact ⟨file, haccepted file hfile⟩
    exact absurd hacyclic (by decide +kernel)
  · intro h
    have hA : packA.schema = .ok (schemaOf packA) := by decide +kernel
    have hB : packB.schema = .ok (schemaOf packB) := by decide +kernel
    have hloaded : twoPacks.Loaded := .loadPack "b" (.loadPack "a" .empty hA) hB
    refine h twoPacks hloaded (by decide +kernel) ("x", "f") ?_
    -- each field needs the other one, by the name of its pack
    have hxy : twoPacks.Needs ("x", "f") ("y", "g") :=
      @Needs.other twoPacks "x" "f" "b.y" "g" ⟨"f", .string, false, ["b.y.g"], "", "", false⟩
        "b.y.g" (.ofInfo ((schemaOf packB).resources.get? "y").get!) rfl List.mem_cons_self rfl rfl
    have hyx : twoPacks.Needs ("y", "g") ("x", "f") :=
      @Needs.other twoPacks "y" "g" "a.x" "f" ⟨"g", .string, false, ["a.x.f"], "", "", false⟩
        "a.x.f" (.ofInfo ((schemaOf packA).resources.get? "x").get!) rfl List.mem_cons_self rfl rfl
    exact .tail (.single hxy) hyx

end Catalog

end LazyFields
