/-
  LazyFields.Proofs.Session.Evaluation
  ────────────────────────────────
  **EVALUATING FIELDS WITHOUT A CACHE.**

  `Outline.evaluate` is what a field comes to by plain recursion: what is known
  is taken as it is, any other field is computed from its references, left to
  right, up to the first that has no value.  The recursion is bounded by the
  depth of the catalog, which is no bound at all when the catalog is lawful:

    · `evaluate_eq` — evaluation satisfies its recursive equation
    · `evaluate_unique` — nothing else does
    · `Grows.evaluate` — more instances change nothing but what was not ready

  `Yields` is the same step for logic that need not be a function: it relates a
  field to every outcome that its references admit.
-/
import LazyFields.Proofs.Session.View

namespace LazyFields

/-! ## §1. Logic that asks nothing. -/

/-- The result of a program that asks nothing. -/
def Program.result {α : Type} : Program α → Except Error α
  | .done r => r
  | .ask .. => .error .notReady

namespace Catalog

/-- The logic of fields asks nothing of the session. -/
def ComputesAlone (c : Catalog) : Prop :=
  ∀ ⦃kind k field logic⦄, c.kinds.get? kind = some k → k.compute? field = some logic →
    ∀ self values number, (logic self values number).IsPassive

/-- The logic of fields is a function of the kind and id of the instance and
of the values of the references. -/
def ComputesPurely (c : Catalog) : Prop :=
  c.ComputesAlone ∧ ∀ ⦃kind k field logic⦄, c.kinds.get? kind = some k →
    k.compute? field = some logic → ∀ {self self' : Ref}, self.kind = self'.kind →
      self.id = self'.id → ∀ values number number',
        logic self values number = logic self' values number'

/-- The logic of fields never says that it is not ready. -/
def ComputesReady (c : Catalog) : Prop :=
  ∀ ⦃kind k field logic⦄, c.kinds.get? kind = some k → k.compute? field = some logic →
    ∀ self values number, (logic self values number).result ≠ .error .notReady

end Catalog

/-- What the logic of a field makes of values, at the given call. -/
def Member.outcome (m : Member) (x : Node) (spec : FieldSpec) (values : List Value)
    (number : Nat) : Outcome :=
  match m.kind.compute? x.2 with
  | none => .error (.notImplemented m.kind.name x.2)
  | some logic =>
      (logic ⟨x.1, m.kind.name, m.id⟩ values number).result.bind
        (Session.checkResult m.kind.name x.2 spec.type)

/-- A value that is checked is not answered with `NotReady`. -/
theorem checkResult_ne_notReady (kind field : String) (type : FieldType) (v : Value) :
    Session.checkResult kind field type v ≠ .error .notReady := by
  unfold Session.checkResult
  split <;> simp

/-! ## §2. Collecting values. -/

/-- The values of references, up to the first without one. -/
def collect (value : Node → Outcome) : List (Option Node) → Except Error (List Value)
  | [] => .ok []
  | none :: _ => .error .notReady
  | some x :: targets =>
      match value x with
      | .error e => .error e
      | .ok w => (collect value targets).map (w :: ·)

/-- The values that references can have, up to the first without one, where
`V` says which outcomes a node can have. -/
inductive Collects (V : Node → Outcome → Prop) :
    List (Option Node) → Except Error (List Value) → Prop
  | nil : Collects V [] (.ok [])
  | missing (targets : List (Option Node)) : Collects V (none :: targets) (.error .notReady)
  | stop {x : Node} {e : Error} (targets : List (Option Node)) (h : V x (.error e)) :
      Collects V (some x :: targets) (.error e)
  | more {x : Node} {w : Value} {targets : List (Option Node)} {g : Except Error (List Value)}
      (h : V x (.ok w)) (hg : Collects V targets g) :
      Collects V (some x :: targets) (g.map (w :: ·))

/-- Where each field has one outcome, collecting has one result. -/
theorem Collects.eq_collect {value : Node → Outcome} {targets : List (Option Node)}
    {g : Except Error (List Value)} (h : Collects (fun x r => r = value x) targets g) :
    g = collect value targets := by
  induction h with
  | nil => rfl
  | missing targets => rfl
  | stop targets h => simp only [collect, ← h]
  | more h _ ih => simp only [collect, ← h, ih]

/-- The collected values of an evaluation are values the references can have. -/
theorem collects_collect (value : Node → Outcome) (targets : List (Option Node)) :
    Collects (fun x r => r = value x) targets (collect value targets) := by
  induction targets with
  | nil => exact .nil
  | cons target targets ih =>
    cases target with
    | none => exact .missing targets
    | some x =>
      unfold collect
      split
      · next e h => exact .stop targets h.symm
      · next w h => exact .more h.symm ih

/-- Collecting asks for the targets only. -/
theorem collect_congr {f g : Node → Outcome} {targets : List (Option Node)}
    (h : ∀ x, some x ∈ targets → f x = g x) : collect f targets = collect g targets := by
  induction targets with
  | nil => rfl
  | cons target targets ih =>
    cases target with
    | none => rfl
    | some x =>
      have ih := ih fun y hy => h y (List.mem_cons_of_mem _ hy)
      simp only [collect, h x List.mem_cons_self, ih]

/-- References that were missing change nothing for those that were ready. -/
theorem collect_grow {α : Type} {f g : Node → Outcome} {old new : α → Option Node} {as : List α}
    (htarget : ∀ a ∈ as, ∀ x, old a = some x → new a = some x)
    (hvalue : ∀ a ∈ as, ∀ x, old a = some x → f x ≠ .error .notReady → g x = f x)
    (h : collect f (as.map old) ≠ .error .notReady) :
    collect g (as.map new) = collect f (as.map old) := by
  induction as with
  | nil => rfl
  | cons a as ih =>
    -- a reference that was missing would have made the whole not ready
    cases hold : old a with
    | none => simp [List.map_cons, hold, collect] at h
    | some x =>
      have hnew := htarget a List.mem_cons_self x hold
      have hx := hvalue a List.mem_cons_self x hold
      simp only [List.map_cons, hold, hnew, collect] at h ⊢
      cases hf : f x with
      | error e =>
        rw [hf] at h hx
        rw [hx (by simpa using h)]
      | ok w =>
        rw [hf] at h hx
        rw [hx (by simp)]
        have hrest : collect f (as.map old) ≠ .error .notReady := by
          intro hrest
          simp [hrest, Except.map] at h
        rw [ih (fun a ha => htarget a (List.mem_cons_of_mem _ ha))
          (fun a ha => hvalue a (List.mem_cons_of_mem _ ha)) hrest]

/-- Values that are there and ready can be collected. -/
theorem Collects.ne_notReady {V : Node → Outcome → Prop} {targets : List (Option Node)}
    {g : Except Error (List Value)} (h : Collects V targets g)
    (hthere : ∀ target ∈ targets, target.isSome)
    (hready : ∀ y, some y ∈ targets → ∀ r, V y r → r ≠ .error .notReady) :
    g ≠ .error .notReady := by
  induction h with
  | nil => simp
  | missing targets => simpa using hthere none List.mem_cons_self
  | @stop y e targets hV =>
    intro he
    exact hready y List.mem_cons_self (.error e) hV (by simpa using he)
  | @more y w targets g _ _ ih =>
    have hg := ih (fun target ht => hthere target (List.mem_cons_of_mem _ ht))
      fun z hz => hready z (List.mem_cons_of_mem _ hz)
    cases g with
    | ok values => simp [Except.map]
    | error e => simpa [Except.map] using hg

/-! ## §3. Evaluation. -/

namespace Outline

variable {o : Outline} {x : Node} {m : Member} {spec : FieldSpec}

/-- A field computed from its references, whose outcomes are given. -/
def valueOf (o : Outline) (value : Node → Outcome) (x : Node) : Outcome :=
  match o.member? x.1 with
  | none => .error .notReady
  | some m =>
    match m.kind.info.field? x.2 with
    | none => .error (.unknownField m.kind.name x.2)
    | some spec =>
      if spec.isStatic then .error (.missingStaticValue m.kind.name x.2)
      else match collect value (spec.refs.map (o.target x.1)) with
        | .error e => .error e
        | .ok values => m.outcome x spec values 1

/-- A field evaluated where references nest less than `depth` deep. -/
def evaluateTo (o : Outline) (known : Node → Option Outcome) : Nat → Node → Outcome
  | 0, _ => .error .notReady
  | depth + 1, x => (known x).getD (o.valueOf (o.evaluateTo known depth) x)

/-- **A field evaluated by plain recursion.**  What is known is taken as it
is. -/
def evaluate (o : Outline) (known : Node → Option Outcome) (x : Node) : Outcome :=
  o.evaluateTo known o.catalog.depth x

/-- The value of a computed field collects those of its references. -/
theorem valueOf_declares (h : o.Declares x m spec) (hcomputed : spec.isStatic = false)
    (value : Node → Outcome) :
    o.valueOf value x = match collect value (spec.refs.map (o.target x.1)) with
      | .error e => .error e
      | .ok values => m.outcome x spec values 1 := by
  simp [valueOf, h.member, h.field, hcomputed]

/-- The value of a field depends on its references only. -/
theorem valueOf_congr {f g : Node → Outcome} (h : o.Declares x m spec)
    (hfg : ∀ reference ∈ spec.refs, ∀ y, o.target x.1 reference = some y → f y = g y) :
    o.valueOf f x = o.valueOf g x := by
  have hcollect : collect f (spec.refs.map (o.target x.1))
      = collect g (spec.refs.map (o.target x.1)) := by
    refine collect_congr fun y hy => ?_
    obtain ⟨reference, href, htarget⟩ := List.mem_map.1 hy
    exact hfg reference href y htarget
  simp only [valueOf, h.member, h.field, hcollect]

namespace Upright

variable (ho : o.Upright)

include ho

/-- **Induction on references**: what holds of a field once it holds of all that
it refers to, holds of every field. -/
theorem induction_on_references {P : Node → Prop}
    (step : ∀ {x m spec}, o.Shows x m spec →
      (∀ reference ∈ spec.refs, ∀ y, o.target x.1 reference = some y → P y) → P x)
    (hx : o.Shows x m spec) : P x := by
  obtain ⟨rank, hrank⟩ := ho.lawful.ranked
  induction hk : o.rank rank x using Nat.strongRecOn generalizing x m spec with
  | ind k ih =>
    refine step hx fun reference href y htarget => ?_
    have hlt := ho.rank_target hrank hx href htarget
    obtain ⟨m', spec', hy, -⟩ := ho.has_target hx href htarget
    exact ih _ (by omega) hy rfl

/-- Deep enough, depth does not matter to the evaluation. -/
theorem evaluateTo_stable {rank : String × String → Nat} (hrank : o.catalog.Ranks rank)
    (known : Node → Option Outcome) (depth : Nat) :
    ∀ depth' x m spec, o.Shows x m spec → o.rank rank x < depth → o.rank rank x < depth' →
      o.evaluateTo known depth x = o.evaluateTo known depth' x := by
  induction depth with
  | zero => intro depth' x m spec _ h _; omega
  | succ depth ih =>
    intro depth' x m spec hx h h'
    obtain ⟨depth', rfl⟩ : ∃ d, depth' = d + 1 := ⟨depth' - 1, by omega⟩
    unfold evaluateTo
    congr 1
    refine valueOf_congr hx.toDeclares fun reference href y htarget => ?_
    have hlt := ho.rank_target hrank hx href htarget
    obtain ⟨m', spec', hy, -⟩ := ho.has_target hx href htarget
    exact ih depth' y m' spec' hy (by omega) (by omega)

/-- **Evaluation satisfies its recursive equation.** -/
theorem evaluate_eq (known : Node → Option Outcome) (hx : o.Shows x m spec) :
    o.evaluate known x = (known x).getD (o.valueOf (o.evaluate known) x) := by
  obtain ⟨rank, hrank⟩ := ho.lawful.ranked
  have hdepth : o.catalog.depth = o.catalog.schema.graph.nodes.size + 1 + 1 := rfl
  have hlt : o.rank rank x < o.catalog.depth := by
    rw [hx.rank_eq]
    exact (hrank _ _ hx.catalog_field?).1
  unfold evaluate
  rw [hdepth, evaluateTo]
  congr 1
  refine valueOf_congr hx.toDeclares fun reference href y htarget => ?_
  have hlt' := ho.rank_target hrank hx href htarget
  obtain ⟨m', spec', hy, -⟩ := ho.has_target hx href htarget
  exact ho.evaluateTo_stable hrank known _ _ y m' spec' hy (by omega) (by omega)

/-- **Nothing else satisfies the equation of evaluation.** -/
theorem evaluate_unique {known : Node → Option Outcome} {value : Node → Outcome}
    (h : ∀ x m spec, o.Shows x m spec → value x = (known x).getD (o.valueOf value x))
    (hx : o.Shows x m spec) : value x = o.evaluate known x := by
  refine ho.induction_on_references (P := fun x => value x = o.evaluate known x) ?_ hx
  intro x m spec hx ih
  rw [h x m spec hx, ho.evaluate_eq known hx, valueOf_congr hx.toDeclares ih]

end Upright

namespace Sound

variable (ho : o.Sound)

include ho

/-- What a reference leads to is a field that is there. -/
theorem has_of_target {reference : String} {y : Node} (hx : o.Declares x m spec)
    (href : reference ∈ spec.refs) (h : o.target x.1 reference = some y) : o.Has y := by
  obtain ⟨m', spec', hy, -⟩ := ho.has_target hx href h
  exact ⟨m', spec', hy⟩

/-- **Induction on references**: what holds of a field once it holds of all that
it refers to, holds of every field. -/
theorem induction_on_references {P : Node → Prop}
    (step : ∀ {x m spec}, o.Declares x m spec →
      (∀ reference ∈ spec.refs, ∀ y, o.target x.1 reference = some y → P y) → P x)
    (hx : o.Has x) : P x := by
  obtain ⟨m, spec, hx⟩ := hx
  exact ho.upright.induction_on_references (fun hx => step hx.toDeclares) (ho.shows hx)

/-- **Evaluation satisfies its recursive equation.** -/
theorem evaluate_eq (known : Node → Option Outcome) (hx : o.Has x) :
    o.evaluate known x = (known x).getD (o.valueOf (o.evaluate known) x) := by
  obtain ⟨m, spec, hx⟩ := hx
  exact ho.upright.evaluate_eq known (ho.shows hx)

/-- **Nothing else satisfies the equation of evaluation.** -/
theorem evaluate_unique {known : Node → Option Outcome} {value : Node → Outcome}
    (h : ∀ x, o.Has x → value x = (known x).getD (o.valueOf value x)) (hx : o.Has x) :
    value x = o.evaluate known x := by
  obtain ⟨m, spec, hx⟩ := hx
  exact ho.upright.evaluate_unique (fun x m spec hx => h x ⟨m, spec, hx.toDeclares⟩) (ho.shows hx)

end Sound

/-! ### Being ready. -/

/-- In a catalog that computes ready, logic does not answer `NotReady`. -/
theorem Sound.outcome_ne_notReady (ho : o.Sound) (hready : o.catalog.ComputesReady)
    (hx : o.Declares x m spec) (values : List Value) (number : Nat) :
    m.outcome x spec values number ≠ .error .notReady := by
  unfold Member.outcome
  cases hlogic : m.kind.compute? x.2 with
  | none => simp
  | some logic =>
    have hne := hready (ho.kind hx.member) hlogic ⟨x.1, m.kind.name, m.id⟩ values number
    dsimp only
    cases hr : (logic ⟨x.1, m.kind.name, m.id⟩ values number).result with
    | error e =>
      rw [hr] at hne
      simpa [Except.bind] using hne
    | ok w => exact checkResult_ne_notReady _ _ _ _

/-- A computed field is ready if its references are there and ready. -/
theorem Sound.valueOf_ne_notReady (ho : o.Sound) (hready : o.catalog.ComputesReady)
    {value : Node → Outcome} (hx : o.Declares x m spec) (hcomputed : spec.isStatic = false)
    (hthere : ∀ reference ∈ spec.refs, (o.target x.1 reference).isSome)
    (hvalue : ∀ reference ∈ spec.refs, ∀ y, o.target x.1 reference = some y →
      value y ≠ .error .notReady) : o.valueOf value x ≠ .error .notReady := by
  have hne := (collects_collect value (spec.refs.map (o.target x.1))).ne_notReady
    (fun target ht => by
      obtain ⟨reference, href, rfl⟩ := List.mem_map.1 ht
      exact hthere reference href)
    (fun y hy r hr => by
      obtain ⟨reference, href, htarget⟩ := List.mem_map.1 hy
      exact hr ▸ hvalue reference href y htarget)
  rw [valueOf_declares hx hcomputed]
  cases hcollect : collect value (spec.refs.map (o.target x.1)) with
  | error e =>
    rw [hcollect] at hne
    simpa using hne
  | ok values => exact ho.outcome_ne_notReady hready hx values 1

/-! ## §4. More instances. -/

/-- Instances are only added. -/
structure Grows (o o' : Outline) : Prop where
  catalog : o'.catalog = o.catalog
  member : ∀ {n m}, o.member? n = some m → o'.member? n = some m
  published : ∀ {address n}, o.published.get? address = some n →
    o'.published.get? address = some n

variable {o' : Outline}

/-- A field keeps its declaration when the outline grows. -/
theorem Grows.declares (h : o.Grows o') (hx : o.Declares x m spec) : o'.Declares x m spec :=
  ⟨h.member hx.member, hx.kept, hx.field⟩

/-- A reference keeps its target when the outline grows. -/
theorem Grows.target (h : o.Grows o') {reference : String} {y : Node}
    (ht : o.target x.1 reference = some y) : o'.target x.1 reference = some y := by
  unfold Outline.target at ht ⊢
  split at ht
  · exact ht
  · obtain ⟨shared, hshared, rfl⟩ := Option.map_eq_some_iff.1 ht
    rw [h.published hshared, Option.map_some]

/-- **More instances change nothing but what was not ready.** -/
theorem Grows.evaluate (h : o.Grows o') (ho : o.Sound) (ho' : o'.Sound)
    {known known' : Node → Option Outcome} (hknown : ∀ x, o.Has x → known' x = known x)
    (hx : o.Has x) (hready : o.evaluate known x ≠ .error .notReady) :
    o'.evaluate known' x = o.evaluate known x := by
  refine ho.induction_on_references (P := fun x => o.evaluate known x ≠ .error .notReady →
    o'.evaluate known' x = o.evaluate known x) ?_ hx hready
  intro x m spec hx ih hready
  rw [ho.evaluate_eq known ⟨m, spec, hx⟩] at hready
  rw [ho.evaluate_eq known ⟨m, spec, hx⟩, ho'.evaluate_eq known' ⟨m, spec, h.declares hx⟩,
    hknown x ⟨m, spec, hx⟩]
  cases hkn : known x with
  | some r => rw [Option.getD_some, Option.getD_some]
  | none =>
    rw [hkn] at hready
    simp only [Option.getD_none] at hready ⊢
    cases hstatic : spec.isStatic with
    | true => simp [valueOf, hx.member, hx.field, (h.declares hx).member, hstatic]
    | false =>
      rw [valueOf_declares hx hstatic] at hready
      rw [valueOf_declares hx hstatic, valueOf_declares (h.declares hx) hstatic]
      -- with references that are not ready the field would not be ready either
      have hcollect : collect (o.evaluate known) (spec.refs.map (o.target x.1))
          ≠ .error .notReady := by
        intro hc
        simp [hc] at hready
      rw [collect_grow (fun reference _ y ht => h.target (x := x) ht) ih hcollect]

/-! ## §5. Outcomes that references admit. -/

/-- The outcomes of a computed field when `V` says which ones its references
can have. -/
def Yields (o : Outline) (V : Node → Outcome → Prop) (x : Node) (r : Outcome) : Prop :=
  ∃ m spec g, o.Declares x m spec ∧ Collects V (spec.refs.map (o.target x.1)) g ∧
    match g with
    | .error e => r = .error e
    | .ok values => ∃ number, r = m.outcome x spec values number

/-- Logic that computes purely does not depend on the number of the run. -/
theorem Member.outcome_number (hpure : o.catalog.ComputesPurely)
    (hkind : o.catalog.kinds.get? m.kind.name = some m.kind) (values : List Value)
    (number number' : Nat) :
    m.outcome x spec values number = m.outcome x spec values number' := by
  unfold LazyFields.Member.outcome
  cases hlogic : m.kind.compute? x.2 with
  | none => rfl
  | some logic =>
    dsimp only
    rw [hpure.2 hkind hlogic rfl rfl values number number']

/-- Pure logic yields one outcome. -/
theorem Yields.eq_valueOf (ho : o.Sound) (hpure : o.catalog.ComputesPurely)
    {value : Node → Outcome} {r : Outcome} (hx : o.Declares x m spec)
    (hcomputed : spec.isStatic = false) (h : o.Yields (fun y r => r = value y) x r) :
    r = o.valueOf value x := by
  obtain ⟨m', spec', g, hx', hg, hr⟩ := h
  obtain ⟨rfl, rfl⟩ := hx.eq hx'
  rw [valueOf_declares hx hcomputed, ← hg.eq_collect]
  cases g with
  | error e => exact hr
  | ok values =>
    obtain ⟨number, rfl⟩ := hr
    exact Member.outcome_number hpure (ho.kind hx.member) values number 1

end Outline

end LazyFields
