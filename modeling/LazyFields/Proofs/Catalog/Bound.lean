/-
  LazyFields.Proofs.Catalog.Bound
  ────────────────────────────────
  **CATALOGS BY BINDING.**

  What the theory asks of the logic of a catalog — that it asks nothing of the
  session, is a function, never says that it is not ready — is asked of every
  logic in it.  The catalog of a schema has none, and binding adds one at a
  time; so whatever is asked has to be shown of each logic once, where it is
  bound (`ComputesPurely.bind`, `ComputesReady.bind`).
-/
import LazyFields.Proofs.Schema.Accepted
import LazyFields.Proofs.Session.Create

namespace LazyFields

namespace Catalog

variable {c c' : Catalog} {name field : String} {logic : ComputeLogic}

/-! ## §1. The kinds afterwards. -/

/-- A kind of the changed catalog is one from before, or the changed one. -/
theorem kinds_of_modifyKind {f : Kind → Except Error Kind} (h : c.modifyKind name f = .ok c')
    {key : String} {k' : Kind} (hk' : c'.kinds.get? key = some k') :
    c.kinds.get? key = some k' ∨ ∃ k, c.kinds.get? key = some k ∧ f k = .ok k' := by
  obtain ⟨own, k, changed, hk, hfk, rfl⟩ := modifyKind_eq_ok h
  rw [Table.get?_insert] at hk'
  split at hk'
  · next heq => exact .inr ⟨k, heq ▸ hk, by rw [hfk, Option.some.inj hk']⟩
  · exact .inl hk'

/-- After binding, a kind has the logic it had, and the new one. -/
theorem kinds_of_bind (h : c.bind name field logic = .ok c') {key : String} {k' : Kind}
    (hk' : c'.kinds.get? key = some k') : ∃ k, c.kinds.get? key = some k
      ∧ k'.info = k.info ∧ k'.init = k.init ∧ k'.idLogic = k.idLogic
      ∧ ∀ {f l}, k'.compute? f = some l → k.compute? f = some l ∨ l = logic := by
  rcases kinds_of_modifyKind h hk' with hold | ⟨k, hk, hbind⟩
  · exact ⟨k', hold, rfl, rfl, rfl, fun hl => .inl hl⟩
  · obtain ⟨-, rfl⟩ := Kind.bind_eq_ok hbind
    refine ⟨k, hk, rfl, rfl, rfl, fun {f l} hl => ?_⟩
    unfold Kind.compute? at hl ⊢
    rw [Table.get?_insert] at hl
    split at hl
    · exact .inr (Option.some.inj hl).symm
    · exact .inl hl

/-- After loading a schema, every kind is an old one, a new one, or an old one
with what the schema adds to it. -/
theorem kinds_of_load {P : Kind → Prop} {s : Schema}
    (hold : ∀ key k, c.kinds.get? key = some k → P k)
    (hnew : ∀ id info, s.resources.get? id = some info → P (Kind.ofInfo info))
    (hmerge : ∀ k id info, P k → s.resources.get? id = some info →
      P { k with info := k.info.merge info })
    {key : String} {k : Kind} (hk : (c.load s).kinds.get? key = some k) : P k := by
  rw [get?_kinds_load] at hk
  cases hinfo : s.resources.get? key with
  | none =>
    rw [hinfo, Option.elim_none] at hk
    exact hold key k hk
  | some info =>
    rw [hinfo, Option.elim_some, Option.some.injEq] at hk
    subst hk
    cases hknown : c.kinds.get? key with
    | none => exact hnew key info hinfo
    | some k => exact hmerge k key info (hold key k hknown) hinfo

/-- The kinds of a schema have no logic. -/
theorem kind_ofSchema {s : Schema} {key : String} {k : Kind}
    (h : (ofSchema s).kinds.get? key = some k) :
    k.computes = ∅ ∧ k.init = none ∧ k.idLogic = none := by
  refine kinds_of_load (P := fun k => k.computes = ∅ ∧ k.init = none ∧ k.idLogic = none)
    ?_ ?_ ?_ h
  · intro key k hk
    have hnone : empty.kinds.get? key = none := rfl
    simp [hnone] at hk
  · exact fun _ _ _ => ⟨rfl, rfl, rfl⟩
  · exact fun _ _ _ hk _ => hk

/-! ## §2. What is asked of logic. -/

/-- Kinds without logic compute purely. -/
theorem computesPurely_ofSchema (s : Schema) : (ofSchema s).ComputesPurely := by
  constructor <;> intro _ k _ l hk hl
  · simp [Kind.compute?, (kind_ofSchema hk).1] at hl
  · simp [Kind.compute?, (kind_ofSchema hk).1] at hl

/-- Kinds without logic are never not ready. -/
theorem computesReady_ofSchema (s : Schema) : (ofSchema s).ComputesReady := by
  intro _ k _ l hk hl
  simp [Kind.compute?, (kind_ofSchema hk).1] at hl

/-- Kinds without logic prepare nothing. -/
theorem preparesAlone_ofSchema (s : Schema) : (ofSchema s).PreparesAlone := by
  intro _ k l hk hl
  simp [(kind_ofSchema hk).2.1] at hl

/-- Kinds without logic choose no id. -/
theorem identifiesByStatics_ofSchema (s : Schema) : (ofSchema s).IdentifiesByStatics := by
  intro _ k l hk hl
  simp [(kind_ofSchema hk).2.2] at hl

/-- Binding logic that asks nothing keeps a catalog whose logic does. -/
theorem ComputesAlone.bind (h : c.ComputesAlone)
    (halone : ∀ self values number, (logic self values number).IsPassive)
    (hc : c.bind name field logic = .ok c') : c'.ComputesAlone := by
  intro _ k' _ l hk' hl
  obtain ⟨k, hk, -, -, -, hlogic⟩ := kinds_of_bind hc hk'
  rcases hlogic hl with hl | rfl
  · exact h hk hl
  · exact halone

/-- Binding logic that depends on kind, id and values only keeps a catalog pure. -/
theorem ComputesPurely.bind (h : c.ComputesPurely)
    (halone : ∀ self values number, (logic self values number).IsPassive)
    (hsame : ∀ {self self' : Ref}, self.kind = self'.kind → self.id = self'.id →
      ∀ values number number', logic self values number = logic self' values number')
    (hc : c.bind name field logic = .ok c') : c'.ComputesPurely := by
  refine ⟨h.1.bind halone hc, ?_⟩
  intro _ k' _ l hk' hl
  obtain ⟨k, hk, -, -, -, hlogic⟩ := kinds_of_bind hc hk'
  rcases hlogic hl with hl | rfl
  · exact h.2 hk hl
  · exact hsame

/-- Binding logic that is always ready keeps a catalog ready. -/
theorem ComputesReady.bind (h : c.ComputesReady)
    (hready : ∀ self values number, (logic self values number).result ≠ .error .notReady)
    (hc : c.bind name field logic = .ok c') : c'.ComputesReady := by
  intro _ k' _ l hk' hl
  obtain ⟨k, hk, -, -, -, hlogic⟩ := kinds_of_bind hc hk'
  rcases hlogic hl with hl | rfl
  · exact h hk hl
  · exact hready

/-- Binding logic to a field changes nothing before construction. -/
theorem PreparesAlone.bind (h : c.PreparesAlone) (hc : c.bind name field logic = .ok c') :
    c'.PreparesAlone := by
  intro _ k' l hk' hl
  obtain ⟨k, hk, -, hinit, -, -⟩ := kinds_of_bind hc hk'
  exact h hk (hinit ▸ hl)

/-- Binding logic to a field changes no id logic. -/
theorem IdentifiesByStatics.bind (h : c.IdentifiesByStatics)
    (hc : c.bind name field logic = .ok c') : c'.IdentifiesByStatics := by
  intro _ k' l hk' hl
  obtain ⟨k, hk, hinfo, -, hid, -⟩ := kinds_of_bind hc hk'
  rw [hinfo]
  exact h hk (hid ▸ hl)

end Catalog

/-! ## §3. An example. -/

namespace Sample

open LazyFields.Source

/-- Two resources: `x` has static fields `s` and `t`; in `r`, the field `g` is
computed from `s`, `f` from `g`, and `h` from `g` and `t`. -/
def file : File where
  imports := []
  options := ∅
  packs := ∅
  resources := [
    ⟨[], false, false, "r", none, none,
      [⟨[], .field ⟨"g", some ["x.s"], some (.named "string")⟩, ⟨2, 3⟩⟩,
        ⟨[], .field ⟨"f", some ["g"], some (.named "string")⟩, ⟨3, 3⟩⟩,
        ⟨[], .field ⟨"h", some ["g", "x.t"], some (.named "string")⟩, ⟨4, 3⟩⟩], ⟨1, 1⟩⟩,
    ⟨[], false, false, "x", none, none,
      [⟨[], .field ⟨"s", none, some (.named "string")⟩, ⟨7, 3⟩⟩,
        ⟨[], .field ⟨"t", none, some (.named "string")⟩, ⟨8, 3⟩⟩], ⟨6, 1⟩⟩]

def schema : Schema := file.schema.toOption.getD ∅

/-- The example file is accepted. -/
theorem accepted : file.Accepted schema where
  schema := by rfl
  noPacks := rfl
  bases := by
    unfold File.HasBases
    decide
  names := by
    unfold File.HasNames
    decide

/-- Computed fields repeat their first reference. -/
def echo : ComputeLogic := fun _ values _ => .done (.ok (values.headD .null))

/-- A catalog with logic for one more field of `r`. -/
def echoing (c : Catalog) (field : String) : Catalog := (c.bind "r" field echo).toOption.getD ∅

def withG : Catalog := echoing (Catalog.ofSchema schema) "g"

def withF : Catalog := echoing withG "f"

def catalog : Catalog := echoing withF "h"

theorem bind_withG : (Catalog.ofSchema schema).bind "r" "g" echo = .ok withG := by rfl

theorem bind_withF : withG.bind "r" "f" echo = .ok withF := by rfl

theorem bind_catalog : withF.bind "r" "h" echo = .ok catalog := by rfl

/-- The example catalog comes from the example schema. -/
theorem catalog_over : catalog.Over schema :=
  (((Catalog.over_ofSchema schema).bind bind_withG).bind bind_withF).bind bind_catalog

theorem computesPurely : catalog.ComputesPurely := by
  have halone : ∀ self values number, (echo self values number).IsPassive :=
    fun _ _ _ => ⟨_, rfl⟩
  have hbind : ∀ {c c' : Catalog} {field : String}, c.ComputesPurely →
      c.bind "r" field echo = .ok c' → c'.ComputesPurely :=
    fun h hc => h.bind halone (fun _ _ _ _ _ => rfl) hc
  exact hbind (hbind (hbind (Catalog.computesPurely_ofSchema schema) bind_withG) bind_withF)
    bind_catalog

theorem computesReady : catalog.ComputesReady := by
  have hecho : ∀ self values number, (echo self values number).result ≠ .error .notReady := by
    simp [echo, Program.result]
  have hbind : ∀ {c c' : Catalog} {field : String}, c.ComputesReady →
      c.bind "r" field echo = .ok c' → c'.ComputesReady := fun h hc => h.bind hecho hc
  exact hbind (hbind (hbind (Catalog.computesReady_ofSchema schema) bind_withG) bind_withF)
    bind_catalog

theorem preparesAlone : catalog.PreparesAlone := by
  have hbind : ∀ {c c' : Catalog} {field : String}, c.PreparesAlone →
      c.bind "r" field echo = .ok c' → c'.PreparesAlone := fun h hc => h.bind hc
  exact hbind (hbind (hbind (Catalog.preparesAlone_ofSchema schema) bind_withG) bind_withF)
    bind_catalog

theorem identifiesByStatics : catalog.IdentifiesByStatics := by
  have hbind : ∀ {c c' : Catalog} {field : String}, c.IdentifiesByStatics →
      c.bind "r" field echo = .ok c' → c'.IdentifiesByStatics := fun h hc => h.bind hc
  exact hbind (hbind (hbind (Catalog.identifiesByStatics_ofSchema schema) bind_withG) bind_withF)
    bind_catalog

/-- A new session over the catalog. -/
def start : Session := .new catalog ⟨1, 1, false, fun _ => none⟩ 0

/-- The session after an operation. -/
def after (s : Session) (op : Operation) : Session := ((s.run 20 op).map Prod.snd).getD s

/-- What is run for the examples has an answer, and leaves the session they name. -/
theorem run_after (s : Session) (op : Operation) (h : (s.run 20 op).isSome) :
    ∃ a, s.run 20 op = some (a, after s op) := by
  obtain ⟨⟨a, t⟩, hrun⟩ := Option.isSome_iff_exists.1 h
  exact ⟨a, by rw [after, hrun]; rfl⟩

/-- The answer of an example is known. -/
theorem run_eq_after {s : Session} {op : Operation} {a : Except Error op.Answer}
    (h : (s.run 20 op).map Prod.fst = some a) : s.run 20 op = some (a, after s op) := by
  obtain ⟨⟨a', t⟩, hrun, rfl⟩ := Option.map_eq_some_iff.1 h
  rw [after, hrun]
  rfl

/-- The sample with an instance of `r`. -/
def hasR : Session := after start (.create "r" ∅)

def createX : Operation := .create "x" (Table.ofList [("s", .string "v"), ("t", .string "w")])

/-- The outcome is the signal that something is missing. -/
def isNotReady : Outcome → Bool
  | .error .notReady => true
  | _ => false

/-- The answer of an example is that something is not ready. -/
theorem run_notReady {s : Session} {n : Nat} {field : String}
    (h : (s.run 20 (.resolve n field)).any (fun p => isNotReady p.1) = true) :
    s.run 20 (.resolve n field) = some (.error .notReady, after s (.resolve n field)) := by
  obtain ⟨⟨a, t⟩, hrun, ha⟩ := (Option.any_eq_true _ _).1 h
  have hafter : after s (.resolve n field) = t := by
    rw [after, hrun]
    rfl
  rw [hrun, hafter]
  unfold isNotReady at ha
  split at ha
  · next heq =>
    obtain rfl : a = .error .notReady := heq
    rfl
  · simp at ha

/-- The outcome is the given text. -/
def isText (text : String) : Outcome → Bool
  | .ok (.string t) => t = text
  | _ => false

/-- An answer that is a text is that text. -/
theorem eq_of_isText {text : String} {r : Outcome} (h : isText text r = true) :
    r = .ok (.string text) := by
  unfold isText at h
  split at h
  · rw [of_decide_eq_true h]
  · simp at h

end Sample

end LazyFields
