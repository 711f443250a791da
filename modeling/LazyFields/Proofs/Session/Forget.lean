/-
  LazyFields.Proofs.Session.Forget
  ────────────────────────────────
  **FORGETTING ENTRIES AND WATCHERS.**

  Forgetting old entries only unsets computed fields (`expire_ends`), and to
  stop watching only removes follow-ups (`unregister_ends`).
-/
import LazyFields.Proofs.Session.Create

namespace LazyFields

/-! ## §1. Views that forgot. -/

namespace View

variable {u v w : View}

/-- Some computed fields were unset. -/
structure Forgets (v w : View) : Prop where
  outline : w.outline = v.outline
  watches : w.watches = v.watches
  slots : ∀ x, w.slots x = v.slots x ∨ w.slots x = none ∧ ∃ m spec,
    v.outline.member? x.1 = some m ∧ m.kind.info.field? x.2 = some spec ∧ spec.isStatic = false

theorem Forgets.refl (v : View) : v.Forgets v := ⟨rfl, rfl, fun _ => .inl rfl⟩

theorem Forgets.trans (h : u.Forgets v) (k : v.Forgets w) : u.Forgets w where
  outline := k.outline.trans h.outline
  watches := k.watches.trans h.watches
  slots x := by
    rcases k.slots x with hk | ⟨hnone, m, spec, hm, hspec⟩
    · rcases h.slots x with hh | ⟨hnone, hx⟩
      · exact .inl (hk.trans hh)
      · exact .inr ⟨hk.trans hnone, hx⟩
    · exact .inr ⟨hnone, m, spec, h.outline ▸ hm, hspec⟩

theorem Forgets.result? (h : v.Forgets w) {x : Node} {r : Outcome} (hr : w.result? x = some r) :
    v.result? x = some r := by
  rcases h.slots x with hs | ⟨hnone, -⟩
  · rwa [← result?_congr hs]
  · simp [View.result?, hnone] at hr

theorem Regular.forget (h : v.Regular) (k : v.Forgets w) : w.Regular where
  sound := k.outline ▸ h.sound
  alone := k.outline ▸ h.alone
  stocked := by
    constructor
    · intro x e hx
      rcases k.slots x with hs | ⟨hnone, -⟩
      · exact h.stocked.entry (hs ▸ hx)
      · simp [hnone] at hx
    · intro x m spec hx hstatic
      rw [k.outline] at hx
      obtain ⟨a, ha⟩ := h.stocked.given hx hstatic
      rcases k.slots x with hs | ⟨-, m', spec', hm', hspec', hcomputed⟩
      · exact ⟨a, ha.congr hs⟩
      -- only computed fields are forgotten
      · obtain rfl : m = m' := Option.some.inj (hx.member.symm.trans hm')
        obtain rfl : spec = spec' := Option.some.inj (hx.field.symm.trans hspec')
        simp [hcomputed] at hstatic
  quiet x previous hx := by
    rcases k.slots x with hs | ⟨hnone, -⟩
    · exact h.quiet x previous (hs ▸ hx)
    · simp [hnone] at hx
  declared {x s} hx := by
    rw [k.outline]
    rcases k.slots x with hs | ⟨hnone, -⟩
    · exact h.declared (hs ▸ hx)
    · simp [hnone] at hx
  fits hf := by
    rw [callbacks_congr k.watches] at hf
    rw [k.outline]
    exact h.fits hf

/-- The view after a watcher stopped watching. -/
def unwatch (v : View) (watcher : String) : View :=
  { v with watches := v.watches.unwatch watcher }

theorem Regular.unwatch (h : v.Regular) (watcher : String) : (v.unwatch watcher).Regular where
  sound := h.sound
  alone := h.alone
  stocked := ⟨h.stocked.entry, h.stocked.given⟩
  quiet := h.quiet
  declared := h.declared
  fits hf := h.fits (WatchGraph.get?_callbacks_of_unwatch hf)

end View

namespace Session

open LazyFields.Action

variable {s : Session}

/-! ## §2. Forgetting. -/

/-- Forgetting entries leaves every slot or unsets it. -/
theorem slot?_foldl_forget (fields : List String) (f : String) :
    ∀ c : Cache, (fields.foldl Cache.forget c).slot? f = c.slot? f
      ∨ f ∈ fields ∧ (fields.foldl Cache.forget c).slot? f = none := by
  induction fields with
  | nil => exact fun _ => .inl rfl
  | cons g fields ih =>
    intro c
    rw [List.foldl_cons]
    have hforget : (c.forget g).slot? f = c.slot? f ∨ g = f ∧ (c.forget g).slot? f = none := by
      rw [Cache.slot?_forget]
      by_cases hg : g = f
      · subst hg
        rw [if_pos rfl]
        cases hslot : c.slot? g with
        | none => exact .inl rfl
        | some sl =>
          cases sl with
          | computing previous => exact .inl rfl
          | stored e => exact .inr ⟨rfl, rfl⟩
      · exact .inl (if_neg hg)
    rcases ih (c.forget g) with hrest | ⟨hmem, hnone⟩
    · rcases hforget with hg | ⟨rfl, hnone⟩
      · exact .inl (hrest.trans hg)
      · exact .inr ⟨List.mem_cons_self, hrest.trans hnone⟩
    · exact .inr ⟨List.mem_cons_of_mem _ hmem, hnone⟩

/-- One instance forgets its stale computed fields. -/
theorem forgets_expireInstance (time : Int) (n : Nat) :
    s.view.Forgets (s.modifyInstance n fun i => (expireInstance time i).2).view where
  outline := outline_modifyInstance_self (f := fun i => (expireInstance time i).2)
    (fun _ => rfl) s n
  watches := rfl
  slots x := by
    have hget : (s.modifyInstance n fun i => (expireInstance time i).2).instance? x.1
        = (s.instance? x.1).map fun i => if n = x.1 then (expireInstance time i).2 else i := by
      simp only [modifyInstance, instance?, List.getElem?_modify]
      by_cases hn : n = x.1 <;> simp [hn]
    -- the slot afterwards is the one before, or is unset
    show (s.modifyInstance n fun i => (expireInstance time i).2).slot? x = s.slot? x
      ∨ (s.modifyInstance n fun i => (expireInstance time i).2).slot? x = none ∧ _
    unfold slot?
    rw [hget]
    cases hi : s.instance? x.1 with
    | none => exact .inl rfl
    | some i =>
      by_cases hn : n = x.1
      · simp only [hn, if_true, Option.map_some, Option.bind_some]
        rcases slot?_foldl_forget (i.cache.stored.filter (isStaleField i time)) x.2 i.cache
          with hs | ⟨hmem, hnone⟩
        · exact .inl hs
        · refine .inr ⟨hnone, i.member, ?_⟩
          have hstale := (List.mem_filter.1 hmem).2
          simp only [isStaleField, Bool.and_eq_true] at hstale
          obtain ⟨spec, hspec, hcomputed⟩ := (Option.any_eq_true _ _).1 hstale.1
          exact ⟨spec, member?_of_instance hi, hspec, by simpa using hcomputed⟩
      · exact .inl (by simp [hn])

theorem forgets_mapPublished (time : Int) :
    s.view.Forgets (s.mapPublished fun i => (expireInstance time i).2).view := by
  unfold mapPublished
  generalize s.published.values = ns
  induction ns generalizing s with
  | nil => exact .refl _
  | cons n ns ih =>
    rw [List.foldl_cons]
    exact (forgets_expireInstance time n).trans ih

/-- **Forgetting old entries** unsets computed fields and nothing else. -/
theorem expire_ends (age : Nat) : Ends (fun call => call (.expire age)) s fun _ t =>
    s.view.Forgets t.view := by
  refine .call ?_
  show Ends (fun _ => expire age) s _
  unfold expire
  refine .next runOn_get (.next (runOn_set _) (.pure ?_))
  exact forgets_mapPublished _

/-- **To stop watching** changes the watch graph only. -/
theorem unregister_ends (watcher : String) :
    Ends (fun call => call (.unregister watcher)) s fun _ t => t.view = s.view.unwatch watcher := by
  refine .call ?_
  show Ends (fun _ => modify fun s => { s with watches := s.watches.unwatch watcher }) s _
  exact .of_runOn (fun _ => runOn_modify _) rfl

end Session

end LazyFields
