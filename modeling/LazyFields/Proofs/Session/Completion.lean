/-
  LazyFields.Proofs.Session.Completion
  ────────────────────────────────
  **WHAT THE SETTLED FIELDS COME TO.**

  While a session is being updated, some of what it holds is old.  The
  `completion` of a view is what plain evaluation makes of the fields that are
  settled, old ones included.  An entry that is not what its references complete
  to is `Stale`.

  Completions move along watches only: filling gaps as they complete changes
  none (`Fills.completion`), and a new entry changes those that it leads to
  (`leads_of_completion_ne`).  If nothing is stale, the completion is the
  evaluation (`completion_eq_evaluate`).
-/
import LazyFields.Proofs.Session.Memoization
import LazyFields.Proofs.Session.Watchful

namespace LazyFields

/-! ## §1. Dependencies. -/

namespace Outline

variable {o : Outline} {x y z : Node} {m : Member} {spec : FieldSpec}

/-- The first field refers to the second one, directly or not. -/
def Depends (o : Outline) : Node → Node → Prop := Relation.TransGen o.Refers

/-- The field was asked for, or something that was depends on it. -/
def Enrolled (o : Outline) (asked : Node → Prop) (x : Node) : Prop :=
  ∃ y, asked y ∧ Relation.ReflTransGen o.Refers y x

/-- A static field that is there. -/
def HasStatic (o : Outline) (x : Node) : Prop :=
  ∃ m spec, o.Declares x m spec ∧ spec.isStatic = true

/-- Every shared instance that is referred to is there. -/
def Complete (o : Outline) : Prop :=
  ∀ {x m spec}, o.Declares x m spec → ∀ reference ∈ spec.refs, (o.target x.1 reference).isSome

/-- A field that depends on something is there. -/
theorem Depends.has (h : o.Depends x y) : o.Has x := by
  obtain ⟨z, ⟨m, spec, reference, hx, -⟩, -⟩ := Relation.TransGen.head'_iff.1 h
  exact ⟨m, spec, hx⟩

/-- What a field depends on ranks below it. -/
theorem Sound.rank_of_depends (ho : o.Sound) {rank : String × String → Nat}
    (hrank : o.catalog.Ranks rank) (h : o.Depends x y) : o.rank rank y < o.rank rank x := by
  have hstep : ∀ {x y}, o.Refers x y → o.rank rank y < o.rank rank x := by
    rintro x y ⟨m, spec, reference, hx, href, htarget⟩
    exact ho.rank_target hrank hx href htarget
  induction h with
  | single hrefers => exact hstep hrefers
  | tail _ hrefers ih => exact Nat.lt_trans (hstep hrefers) ih

/-- **No field depends on itself.** -/
theorem Sound.not_depends_self (ho : o.Sound) : ¬ o.Depends x x := by
  intro h
  obtain ⟨rank, hrank⟩ := ho.lawful.ranked
  exact Nat.lt_irrefl _ (ho.rank_of_depends hrank h)

/-- A static field depends on nothing. -/
theorem Sound.not_depends_of_static (ho : o.Sound) (hx : o.Declares x m spec)
    (hstatic : spec.isStatic = true) : ¬ o.Depends x y := by
  intro h
  obtain ⟨z, ⟨m', spec', reference, hx', href, -⟩, -⟩ := Relation.TransGen.head'_iff.1 h
  obtain ⟨rfl, rfl⟩ := hx.eq hx'
  simp [ho.lawful.static (ho.catalog_field? hx) hstatic] at href

instance (o : Outline) : Decidable o.Complete :=
  decidable_of_iff (∀ n < o.members.length, ∀ m ∈ o.member? n, m.discarded = false →
    ∀ f ∈ m.kind.info.fields.keys, ∀ spec ∈ m.kind.info.field? f, ∀ reference ∈ spec.refs,
      (o.target n reference).isSome = true) <| by
    constructor
    · intro h x m spec hx reference href
      have hlt : x.1 < o.members.length := (List.getElem?_eq_some_iff.1 hx.member).1
      have hkey : x.2 ∈ m.kind.info.fields.keys :=
        Table.contains_iff_mem_keys.1 (Option.isSome_iff_exists.2 ⟨spec, hx.field⟩)
      exact h x.1 hlt m hx.member hx.kept x.2 hkey spec hx.field reference href
    · intro h n _ m hm hkept f _ spec hspec reference href
      exact h (x := (n, f)) ⟨hm, hkept, hspec⟩ reference href

instance (o : Outline) (x : Node) : Decidable (o.HasStatic x) :=
  decidable_of_iff (∃ m ∈ o.member? x.1, m.discarded = false ∧ ∃ spec ∈ m.kind.info.field? x.2,
    spec.isStatic = true) <| by
    constructor
    · rintro ⟨m, hm, hkept, spec, hspec, hstatic⟩
      exact ⟨m, spec, ⟨hm, hkept, hspec⟩, hstatic⟩
    · rintro ⟨m, spec, hx, hstatic⟩
      exact ⟨m, hx.member, hx.kept, spec, hx.field, hstatic⟩

instance (o : Outline) (x y : Node) : Decidable (o.Refers x y) :=
  decidable_of_iff (∃ m ∈ o.member? x.1, m.discarded = false ∧ ∃ spec ∈ m.kind.info.field? x.2,
    some y ∈ spec.refs.map (o.target x.1)) <| by
    constructor
    · rintro ⟨m, hm, hkept, spec, hspec, hy⟩
      obtain ⟨reference, href, htarget⟩ := List.mem_map.1 hy
      exact ⟨m, spec, reference, ⟨hm, hkept, hspec⟩, href, htarget⟩
    · rintro ⟨m, spec, reference, hx, href, htarget⟩
      exact ⟨m, hx.member, hx.kept, spec, hx.field, List.mem_map.2 ⟨reference, href, htarget⟩⟩

/-- **What is known of one field matters to those only that depend on it.** -/
theorem Sound.evaluate_of_not_depends (ho : o.Sound) {known known' : Node → Option Outcome}
    (hknown : ∀ x, x ≠ y → known' x = known x) (hx : o.Has x) (hne : x ≠ y)
    (hnot : ¬ o.Depends x y) : o.evaluate known' x = o.evaluate known x := by
  refine ho.induction_on_references (P := fun x => x ≠ y → ¬ o.Depends x y →
    o.evaluate known' x = o.evaluate known x) ?_ hx hne hnot
  intro x m spec hx ih hne hnot
  rw [ho.evaluate_eq known ⟨m, spec, hx⟩, ho.evaluate_eq known' ⟨m, spec, hx⟩, hknown x hne]
  congr 1
  refine valueOf_congr hx fun reference href z hz => ?_
  have hrefers : o.Refers x z := ⟨m, spec, reference, hx, href, hz⟩
  refine ih reference href z hz ?_ fun hz => hnot (.head hrefers hz)
  rintro rfl
  exact hnot (.single hrefers)

end Outline

namespace View

variable {u v w : View} {x y z : Node} {m : Member} {spec : FieldSpec} {asked : Node → Prop}
  {tasks : List Task} {c : Catalog} {given : Nat → Args}

/-! ### Registered fields. -/

/-- What a registered field refers to is registered. -/
theorem Watchful.attached_of_refers (h : v.Watchful asked []) (ho : v.outline.Sound)
    (hx : v.Attached x) (hxy : v.outline.Refers x y) : v.Attached y := by
  obtain ⟨m, spec, name, hy, hf⟩ := hx.prompts ho h.honest hxy
  exact (h.linked hy ⟨name, _, hf⟩).resolve_right (by simp)

/-- Every enrolled field is attached. -/
theorem Watchful.attached_of_enrolled (h : v.Watchful asked []) (ho : v.outline.Sound)
    (hx : v.outline.Enrolled asked x) : v.Attached x := by
  obtain ⟨y, hy, hyx⟩ := hx
  induction hyx with
  | refl => exact (h.enrolled hy).2
  | tail _ hrefers ih => exact h.attached_of_refers ho ih hrefers

/-- Triggers pass from what a registered field depends on to the field. -/
theorem Watchful.leads_of_refers (h : v.Watchful asked []) (ho : v.outline.Sound)
    (hx : v.Attached x) (hxy : Relation.ReflTransGen v.outline.Refers x y) : v.Leads y x := by
  induction hxy using Relation.ReflTransGen.head_induction_on with
  | refl => exact .refl
  | head hrefers _ ih =>
    exact (ih (h.attached_of_refers ho hx hrefers)).tail (hx.prompts ho h.honest hrefers)

/-- Triggers reach only what depends on the field. -/
theorem Regular.refers_of_leads (h : v.Regular) (hyx : v.Leads y x) :
    Relation.ReflTransGen v.outline.Refers x y := by
  induction hyx with
  | refl => exact .refl
  | tail _ hprompts ih => exact .head (h.refers_of_prompts hprompts) ih

/-- Whoever is prompted is a registered computed field. -/
theorem Watchful.attached_of_prompts (h : v.Watchful asked []) (hyx : v.Prompts y x) :
    v.Attached x := by
  obtain ⟨m, spec, name, hy, hf⟩ := hyx
  exact (h.following hf).resolve_right (by simp)

/-- A field that is prompted is computed. -/
theorem Regular.computes_of_prompts (h : v.Regular) (hyx : v.Prompts y x) : v.Computes x := by
  obtain ⟨m, spec, name, hy, hf⟩ := hyx
  exact h.computes_of_fits (h.fits hf)

/-! ## §2. Completion. -/

/-- What a field comes to if everything that is settled stays as it is. -/
def completion (v : View) (x : Node) : Outcome := v.outline.evaluate v.result? x

/-- A completion is the entry, or what the references complete to. -/
theorem completion_eq (h : v.Regular) (hx : v.outline.Has x) :
    v.completion x = (v.result? x).getD (v.outline.valueOf v.completion x) :=
  h.sound.evaluate_eq _ hx

/-- A field with an entry completes to it. -/
theorem completion_of_result? (h : v.Regular) (hx : v.outline.Has x) {r : Outcome}
    (hr : v.result? x = some r) : v.completion x = r := by
  rw [completion_eq h hx, hr, Option.getD_some]

/-- Filling gaps as they complete changes no completion. -/
theorem Fills.completion {D : Node → Prop} (h : v.Fills D (fun x r => r = v.completion x) w)
    (hv : v.Regular) (hx : v.outline.Has x) : w.completion x = v.completion x := by
  have hw := hv.fills h
  have heq : ∀ y, w.outline.Has y →
      v.completion y = (w.result? y).getD (w.outline.valueOf v.completion y) := by
    intro y hy
    rw [h.outline] at hy ⊢
    rcases h.slots y with hs | ⟨-, -, -, r, hset, rfl⟩
    · rw [result?_congr hs]
      exact completion_eq hv hy
    · rw [hset.result?, Option.getD_some]
  exact (hw.sound.evaluate_unique heq (h.outline ▸ hx)).symm

/-- **If every reference is there, everything completes.** -/
theorem completion_ne_notReady (h : v.Regular) (hready : v.outline.catalog.ComputesReady)
    (hcomplete : v.outline.Complete) (hx : v.outline.Has x) :
    v.completion x ≠ .error .notReady := by
  refine h.sound.induction_on_references (P := fun x => v.completion x ≠ .error .notReady) ?_ hx
  intro x m spec hx ih
  rcases h.slot x with hnone | ⟨r, hset⟩
  · have hresult : v.result? x = none := by simp [View.result?, hnone]
    obtain ⟨m', spec', hx', hcomputed⟩ := h.computes_of_slots ⟨m, spec, hx⟩ hnone
    obtain ⟨rfl, rfl⟩ := hx.eq hx'
    rw [completion_eq h ⟨m, spec, hx⟩, hresult, Option.getD_none]
    exact h.sound.valueOf_ne_notReady hready hx hcomputed (hcomplete hx) ih
  · rw [completion_of_result? h ⟨m, spec, hx⟩ hset.result?]
    obtain ⟨e, -, -, hne⟩ := hset
    exact hne

/-! ### A new entry. -/

section Put

variable (hv : v.Regular) (hw : w.Regular) (hsteady : v.Steady w) (hwatchful : v.Watchful asked [])
  (hslots : ∀ y, y ≠ x → w.slots y = v.slots y)

include hv hsteady hwatchful in
/-- If its references complete to something else, the new entry leads to one of
them, and from there to the field. -/
theorem leads_of_references (hz : v.outline.Declares z m spec) (hattached : v.Attached z)
    (hrefs : ∀ reference ∈ spec.refs, ∀ y, v.outline.target z.1 reference = some y →
      w.completion y ≠ v.completion y → v.Leads x y)
    (hne : w.outline.valueOf w.completion z ≠ v.outline.valueOf v.completion z) : v.Leads x z := by
  by_contra hnot
  rw [hsteady.outline] at hne
  refine hne (Outline.valueOf_congr hz fun reference href y hy => ?_)
  by_contra hney
  exact hnot ((hrefs reference href y hy hney).tail
    (hattached.prompts hv.sound hwatchful.honest ⟨m, spec, reference, hz, href, hy⟩))

include hv hw hsteady hwatchful hslots

/-- **A new entry reaches what it leads to**, among registered fields: no other
completion changes. -/
theorem leads_of_completion_ne (hz : v.outline.Has z) (hattached : v.Attached z)
    (hne : w.completion z ≠ v.completion z) : v.Leads x z := by
  refine hv.sound.induction_on_references (P := fun z => v.Attached z →
    w.completion z ≠ v.completion z → v.Leads x z) ?_ hz hattached hne
  intro z m spec hz ih hattached hne
  by_cases hzx : z = x
  · exact hzx ▸ .refl
  have hhas : v.outline.Has z := ⟨m, spec, hz⟩
  have hresult := result?_congr (hslots z hzx)
  rw [completion_eq hv hhas, completion_eq hw (hsteady.outline ▸ hhas), hresult] at hne
  cases hr : v.result? z with
  | some r => simp [hr] at hne
  | none =>
    rw [hr, Option.getD_none, Option.getD_none] at hne
    refine leads_of_references hv hsteady hwatchful hz hattached (fun reference href y hy => ?_) hne
    exact ih reference href y hy
      (hwatchful.attached_of_refers hv.sound hattached ⟨m, spec, reference, hz, href, hy⟩)

/-- If the references complete to something else, triggers lead to the field from
the one whose entry was replaced. -/
theorem leads_of_valueOf_ne (hz : v.outline.Has z) (hattached : v.Attached z)
    (hne : w.outline.valueOf w.completion z ≠ v.outline.valueOf v.completion z) :
    v.Leads x z := by
  obtain ⟨m, spec, hz⟩ := hz
  refine leads_of_references hv hsteady hwatchful hz hattached (fun reference href y hy => ?_) hne
  exact leads_of_completion_ne hv hw hsteady hwatchful hslots (hv.sound.has_of_target hz href hy)
    (hwatchful.attached_of_refers hv.sound hattached ⟨m, spec, reference, hz, href, hy⟩)

end Put

/-- The references of a field complete to what they did before its entry was
replaced. -/
theorem valueOf_completion_put (hv : v.Regular) (hx : v.outline.Has x) (s : Option Slot) :
    v.outline.valueOf (v.put x s).completion x = v.outline.valueOf v.completion x := by
  obtain ⟨m, spec, hx⟩ := hx
  refine Outline.valueOf_congr hx fun reference href y hy => ?_
  have hrefers : v.outline.Refers x y := ⟨m, spec, reference, hx, href, hy⟩
  have hnot : ¬ v.outline.Depends y x := fun hy => hv.sound.not_depends_self (.head hrefers hy)
  refine hv.sound.evaluate_of_not_depends (fun z hz => ?_)
    (hv.sound.has_of_target hx href hy) ?_ hnot
  · exact result?_congr (put_slots_ne v hz s)
  · rintro rfl
    exact hv.sound.not_depends_self (.single hrefers)

/-! ## §3. Stale entries. -/

/-- The entry of a computed field is not what its references complete to. -/
def Stale (v : View) (x : Node) : Prop :=
  v.Computes x ∧ ∃ r, v.Settled x r ∧ r ≠ v.outline.valueOf v.completion x

/-- What is not stale completes to what its references do. -/
theorem completion_eq_valueOf (h : v.Regular) (hx : v.Computes x) (hfresh : ¬ v.Stale x) :
    v.completion x = v.outline.valueOf v.completion x := by
  rcases h.slot x with hnone | ⟨r, hset⟩
  · rw [completion_eq h hx.has, View.result?, hnone]
    rfl
  · rw [completion_of_result? h hx.has hset.result?]
    by_contra hne
    exact hfresh ⟨hx, r, hset, hne⟩

/-- Filling gaps does not change what the references complete to. -/
theorem Fills.valueOf_completion {D : Node → Prop}
    (h : v.Fills D (fun x r => r = v.completion x) w) (hv : v.Regular) (hx : v.outline.Has x) :
    w.outline.valueOf w.completion x = v.outline.valueOf v.completion x := by
  obtain ⟨m, spec, hx⟩ := hx
  rw [h.outline]
  exact Outline.valueOf_congr hx fun reference href y hy =>
    h.completion hv (hv.sound.has_of_target hx href hy)

/-- Filling gaps makes nothing stale. -/
theorem Fills.stale {D : Node → Prop} (h : v.Fills D (fun x r => r = v.completion x) w)
    (hv : v.Regular) (hx : w.Stale x) : v.Stale x := by
  obtain ⟨hcomputes, r, hset, hne⟩ := hx
  have hcomputes := hcomputes.congr h.outline.symm
  rw [h.valueOf_completion hv hcomputes.has] at hne
  rcases h.slots x with hs | ⟨hnone, -, -, r', hset', rfl⟩
  · exact ⟨hcomputes, r, hset.congr hs.symm, hne⟩
  · -- a gap was filled with what its references complete to
    obtain rfl : v.completion x = r := Option.some.inj (hset'.result?.symm.trans hset.result?)
    refine absurd (completion_eq_valueOf hv hcomputes ?_) hne
    rintro ⟨-, r, ⟨e, he, -⟩, -⟩
    simp [hnone] at he

/-- **A new entry makes stale only what it leads to**, among registered fields. -/
theorem stale_of_put (hv : v.Regular) {s : Option Slot} (hw : (v.put y s).Regular)
    (hwatchful : v.Watchful asked []) (hz : v.Attached z) (hne : z ≠ y)
    (hstale : (v.put y s).Stale z) : v.Stale z ∨ v.Leads y z := by
  obtain ⟨hcomputes, r, hset, hr⟩ := hstale
  have hcomputes : v.Computes z := hcomputes.congr rfl
  by_cases hvalue : v.outline.valueOf (v.put y s).completion z = v.outline.valueOf v.completion z
  · left
    refine ⟨hcomputes, r, hset.congr (put_slots_ne v hne s).symm, ?_⟩
    rw [← hvalue]
    exact hr
  · right
    exact leads_of_valueOf_ne hv hw ⟨rfl, rfl⟩ hwatchful (fun z hz => put_slots_ne v hz s)
      hcomputes.has hz hvalue

/-- **If no registered field is stale, completion is evaluation.** -/
theorem completion_eq_evaluate (h : v.Regular) (hwatchful : v.Watchful asked [])
    (hfresh : ∀ x, v.Attached x → ¬ v.Stale x) {known : Node → Option Outcome}
    (hcomputed : ∀ x, v.Computes x → known x = none)
    (hstatic : ∀ {x m spec}, v.outline.Declares x m spec → spec.isStatic = true →
      v.completion x = v.outline.evaluate known x)
    (hx : v.outline.Has x) (hattached : v.Attached x) :
    v.completion x = v.outline.evaluate known x := by
  refine h.sound.induction_on_references (P := fun x => v.Attached x →
    v.completion x = v.outline.evaluate known x) ?_ hx hattached
  intro x m spec hx ih hattached
  cases hs : spec.isStatic with
  | true => exact hstatic hx hs
  | false =>
    have hcomputes : v.Computes x := ⟨m, spec, hx, hs⟩
    rw [completion_eq_valueOf h hcomputes (hfresh x hattached),
      h.sound.evaluate_eq known ⟨m, spec, hx⟩, hcomputed x hcomputes, Option.getD_none]
    refine Outline.valueOf_congr hx fun reference href y hy => ?_
    exact ih reference href y hy
      (hwatchful.attached_of_refers h.sound hattached ⟨m, spec, reference, hx, href, hy⟩)

end View

end LazyFields
