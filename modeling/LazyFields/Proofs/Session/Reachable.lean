/-
  LazyFields.Proofs.Session.Reachable
  ────────────────────────────────
  **WHAT PUBLISHED INSTANCES HOLD.**

  Whatever is asked of a session over a loaded catalog, and whatever its logic
  does, the caches of its published instances hold what their kinds allow
  (`published_holds`), as long as nobody stores a value without a check.

  A new session is well typed because it has no instances, and operations keep
  it so (`WellTyped.run`).  Neither the time nor the end of a session changes
  an instance.
-/
import LazyFields.Proofs.Catalog.Loaded
import LazyFields.Proofs.Session.Safe

namespace LazyFields.Session

/-! ## §1. Reachable sessions. -/

/-- The session came about over the catalog, by any operations but those that
store a value without a check. -/
inductive Reachable (c : Catalog) : Session → Prop where
  | new (config : Config) (now : Int) : Reachable c (.new c config now)
  /-- Time goes on, or back. -/
  | wait {s : Session} (now : Int) : Reachable c s → Reachable c { s with now }
  | run {s t : Session} {fuel : Nat} {op : Operation} {a : Except Error op.Answer} :
      Reachable c s → ¬ op.Stores → s.run fuel op = some (a, t) → Reachable c t
  | finish {s : Session} : Reachable c s → Reachable c s.finish

variable {c : Catalog} {s : Session}

theorem wellTyped_new (hc : c.Sound) (config : Config) (now : Int) :
    (Session.new c config now).WellTyped where
  catalog := hc
  instances hi := by simp [Session.new, instance?] at hi

/-- **Reachable sessions are well typed,** and have the kinds they began with. -/
theorem Reachable.wellTyped (hs : Reachable c s) (hc : c.Sound) :
    s.WellTyped ∧ s.catalog = c := by
  induction hs with
  | new config now => exact ⟨wellTyped_new hc config now, rfl⟩
  | @wait s now _ ih =>
    obtain ⟨ht, hext⟩ := ih.1.congr (t := { s with now }) rfl rfl
    exact ⟨ht, hext.catalog.trans ih.2⟩
  | run _ hop hrun ih =>
    obtain ⟨ht, hext⟩ := ih.1.run hop hrun
    exact ⟨ht, hext.catalog.trans ih.2⟩
  | @finish s _ ih =>
    obtain ⟨ht, hext⟩ := ih.1.congr (t := s.finish) rfl rfl
    exact ⟨ht, hext.catalog.trans ih.2⟩

/-! ## §2. Published instances. -/

theorem instance?_of_mem_publishedInstances {n : Nat} {i : Instance}
    (h : (n, i) ∈ s.publishedInstances) : s.instance? n = some i := by
  obtain ⟨m, -, hm⟩ := List.mem_filterMap.1 h
  obtain ⟨j, hj, heq⟩ := Option.map_eq_some_iff.1 hm
  cases heq
  exact hj

/-- **Caches are well typed.**  In a reachable session over a loaded catalog,
a published instance is of a kind of the catalog; the entries of its cache
belong to declared fields, the valid ones hold values of the declared types,
the others an error that is not the signal; and its static fields have valid
entries. -/
theorem published_holds (hc : c.Loaded) (hs : Reachable c s) {n : Nat} {i : Instance}
    (hi : (n, i) ∈ s.publishedInstances) : c.Has i.kind ∧ i.kind.Holds i.cache := by
  obtain ⟨hwell, hcatalog⟩ := hs.wellTyped hc.sound
  have hinstance := hwell.instances (instance?_of_mem_publishedInstances hi)
  rw [hcatalog] at hinstance
  exact hinstance

section Sample

open LazyFields.Sample

/-- Both instances are there, and `f` was read. -/
def resolvesF : Session := after (after hasR createX) (.resolve 0 "f")

/-- The sample is loaded: logic that only repeats a value stores nothing. -/
theorem loaded_catalog : Sample.catalog.Loaded := by
  have hecho : ∀ self values number, (echo self values number).StoresNothing :=
    fun _ _ _ => trivial
  have hschema : (Catalog.ofSchema schema).Loaded := .load .empty accepted.schema
  exact ((hschema.bind hecho bind_withG).bind hecho bind_withF).bind hecho bind_catalog

theorem reachable_resolvesF : Reachable Sample.catalog resolvesF := by
  obtain ⟨_, hr⟩ := run_after start (.create "r" ∅) (by decide +kernel)
  obtain ⟨_, hx⟩ := run_after hasR createX (by decide +kernel)
  obtain ⟨_, hf⟩ := run_after (after hasR createX) (.resolve 0 "f") (by decide +kernel)
  have hstart : Reachable Sample.catalog start := .new _ 0
  have hhasR : Reachable Sample.catalog hasR := hstart.run (by simp [Operation.Stores]) hr
  have hboth : Reachable Sample.catalog (after hasR createX) :=
    hhasR.run (by simp [Operation.Stores, createX]) hx
  exact hboth.run (by simp [Operation.Stores]) hf

/-- The computed field `f` of the published `r` holds the value that `x` was
given, which is of its type. -/
theorem published_resolvesF : ∃ i, (0, i) ∈ resolvesF.publishedInstances
    ∧ (i.cache.get? "f").any (fun e => e.valid && isText "v" (.ok e.data)) = true
    ∧ Sample.catalog.Has i.kind ∧ i.kind.Holds i.cache := by
  have hthere : resolvesF.publishedInstances.any (fun e => e.1 = 0
      && (e.2.cache.get? "f").any fun e => e.valid && isText "v" (.ok e.data)) = true := by
    decide +kernel
  obtain ⟨⟨n, i⟩, hi, hf⟩ := List.any_eq_true.1 hthere
  simp only [Bool.and_eq_true, decide_eq_true_eq] at hf
  obtain ⟨rfl, hf⟩ := hf
  exact ⟨i, hi, hf, published_holds loaded_catalog reachable_resolvesF hi⟩

end Sample

end LazyFields.Session
