/-
  LazyFields.Proofs.Session.Update
  ────────────────────────────────
  **AN UPDATE LEAVES NOTHING STALE.**

  A static field gets a new value by hand and is triggered.  The cascade climbs
  the watches depth first and may compute a field several times, some of them
  from siblings that are still old; when it ends, every registered field that
  depends on the new value holds what plain evaluation makes of it
  (`update_settles`).

  The invariant is `Updating`: every stale field lies ahead of a pending
  follow-up, and so does every gap that the cascade has to fill.  A field that
  is computed again makes stale only what it leads to, and its followers come
  next.  When none is pending nothing is stale, and the completion of the
  session is its evaluation.
-/
import LazyFields.Proofs.Session.Completion

namespace LazyFields

/-! ## §1. A cascade after a new value. -/

namespace View

variable {u v w : View} {x y z : Node} {m : Member} {spec : FieldSpec} {asked : Node → Prop}
  {tasks tasks' : List Task}

/-- A trigger of the first field computes the second one again, at once or on
the way. -/
def Ahead (v : View) : Node → Node → Prop := Relation.TransGen v.Prompts

/-- A field ahead of an update is computed. -/
theorem Ahead.computes (h : v.Regular) (hz : v.Ahead x z) : v.Computes z := by
  obtain ⟨y, -, hprompts⟩ := Relation.TransGen.tail'_iff.1 hz
  exact h.computes_of_prompts hprompts

/-- It is attached to what it depends on. -/
theorem Ahead.attached (h : v.Watchful asked []) (hz : v.Ahead x z) : v.Attached z := by
  obtain ⟨y, -, hprompts⟩ := Relation.TransGen.tail'_iff.1 hz
  exact h.attached_of_prompts hprompts

/-- It depends on the field that is updated. -/
theorem Ahead.depends (h : v.Regular) (hz : v.Ahead x z) : v.outline.Depends z x := by
  obtain ⟨y, hxy, hyz⟩ := Relation.TransGen.tail'_iff.1 hz
  exact .head' (h.refers_of_prompts hyz) (h.refers_of_leads hxy)

/-- A registered field is ahead of all that it depends on. -/
theorem ahead_of_depends (h : v.Regular) (hwatchful : v.Watchful asked []) (hz : v.Attached z)
    (hdepends : v.outline.Depends z x) : v.Ahead x z := by
  obtain ⟨y, hzy, hyx⟩ := Relation.TransGen.head'_iff.1 hdepends
  have hleads := hwatchful.leads_of_refers h.sound (hwatchful.attached_of_refers h.sound hz hzy) hyx
  exact .tail' hleads (hz.prompts h.sound hwatchful.honest hzy)

/-- A follower that recomputes a field prompts it. -/
theorem prompts_of_mem_followers (hy : v.outline.Declares y m spec) {n : Nat} {field : String}
    (ht : .run (.recompute n field) ∈ v.followers (m.address y.2)) : v.Prompts y (n, field) := by
  obtain ⟨name, f, hf, heq⟩ := mem_followers.1 ht
  obtain rfl : f = .recompute n field := by simpa using heq.symm
  exact ⟨m, spec, name, hy, hf⟩

/-- A pending follow-up leads to the field. -/
def Pending (v : View) (tasks : List Task) (x : Node) : Prop :=
  ∃ y, .run (.recompute y.1 y.2) ∈ tasks ∧ v.Leads y x

/-- More tasks leave a field pending. -/
theorem Pending.mono (h : v.Pending tasks x)
    (htasks : ∀ n field, .run (.recompute n field) ∈ tasks → .run (.recompute n field) ∈ tasks') :
    v.Pending tasks' x := by
  obtain ⟨y, hy, hyx⟩ := h
  exact ⟨y, htasks _ _ hy, hyx⟩

/-- So does what is steady. -/
theorem Pending.steady (h : v.Pending tasks x) (hs : v.Steady w) : w.Pending tasks x := by
  obtain ⟨y, hy, hyx⟩ := h
  exact ⟨y, hy, Leads.extend hyx hs.extends⟩

/-- Whatever a field leads to is pending, once its followers are. -/
theorem pending_of_leads (tasks : List Task) (hy : v.outline.Declares y m spec)
    (hyz : v.Leads y z) (hne : z ≠ y) :
    v.Pending (v.followers (m.address y.2) ++ tasks) z := by
  rcases hyz.cases_head with rfl | ⟨y', hprompts, hleads⟩
  · exact absurd rfl hne
  · exact ⟨y', List.mem_append_left _ (hprompts.mem_followers hy), hleads⟩

/-- A field was given a new value in the view `u`, and the cascade goes on. -/
structure Updating (u : View) (x : Node) (tasks : List Task) (v : View) : Prop where
  regular : v.Regular
  steady : u.Steady v
  /-- Whatever is to be computed again depends on the new value. -/
  scope : ∀ {n field}, .run (.recompute n field) ∈ tasks → u.Ahead x (n, field)
  /-- All other entries are as they were, and gaps of registered fields may
  have been filled. -/
  kept : ∀ {z}, ¬ u.Ahead x z → v.slots z = u.slots z ∨ u.slots z = none ∧ u.Attached z
  stale : ∀ {z}, u.Attached z → v.Stale z → v.Pending tasks z
  gaps : ∀ {z}, u.Ahead x z → v.slots z = none → v.Pending tasks z

namespace Updating

/-- While an update is under way, the view is watchful. -/
theorem watchful (h : Updating u x tasks v) (hu : u.Watchful asked []) : v.Watchful asked [] :=
  hu.steady h.steady (by simp)

/-- A follow-up that computes nothing is done. -/
theorem mono (h : Updating u x tasks v)
    (hold : ∀ n field, .run (.recompute n field) ∈ tasks → .run (.recompute n field) ∈ tasks')
    (hnew : ∀ n field, .run (.recompute n field) ∈ tasks' → .run (.recompute n field) ∈ tasks) :
    Updating u x tasks' v where
  regular := h.regular
  steady := h.steady
  scope ht := h.scope (hnew _ _ ht)
  kept := h.kept
  stale hz hstale := (h.stale hz hstale).mono hold
  gaps hz hnone := (h.gaps hz hnone).mono hold

/-- Gaps are filled on the way. -/
theorem fills (h : Updating u x tasks v)
    (k : v.Fills u.Attached (fun z r => r = v.completion z) w) : Updating u x tasks w where
  regular := h.regular.fills k
  steady := h.steady.trans k.steady
  scope := h.scope
  kept {z} hz := by
    rcases k.slots z with hs | ⟨hnone, -, hattached, -⟩
    · rw [hs]
      exact h.kept hz
    · refine .inr ⟨?_, hattached⟩
      rcases h.kept hz with hs | ⟨hnone', -⟩
      · rw [← hs, hnone]
      · exact hnone'
  stale hz hstale := (h.stale hz (k.stale h.regular hstale)).steady k.steady
  gaps {z} hz hnone := by
    rcases k.slots z with hs | ⟨-, -, -, r, ⟨e, he, -⟩, -⟩
    · exact (h.gaps hz (hs ▸ hnone)).steady k.steady
    · simp [hnone] at he

/-- **A field is computed again**, and its followers come next. -/
theorem put (h : Updating u x (.run (.recompute y.1 y.2) :: tasks) v) (hu : u.Watchful asked [])
    (hy : v.outline.Declares y m spec) (hcomputed : spec.isStatic = false)
    (hready : v.outline.valueOf v.completion y ≠ .error .notReady) (now : Int) :
    Updating u x (v.followers (m.address y.2) ++ tasks) (v.put y
      (some (.stored (Entry.ofOutcome (v.outline.valueOf v.completion y) now)))) := by
  have hregular := h.regular.put ⟨m, spec, hy, hcomputed⟩ hready now
  have hahead : u.Ahead x y := h.scope List.mem_cons_self
  have hattached : ∀ {z}, u.Attached z → v.Attached z := fun hz => hz.extend h.steady.extends
  -- what was pending on account of the field is so on account of its followers
  have hnext : ∀ {z}, z ≠ y → v.Pending (.run (.recompute y.1 y.2) :: tasks) z ∨ v.Leads y z →
      v.Pending (v.followers (m.address y.2) ++ tasks) z := by
    rintro z hne (⟨y', ht, hleads⟩ | hleads)
    · rcases List.mem_cons.1 ht with heq | ht
      · obtain rfl : y' = y := by
          simp only [Task.run.injEq, FollowUp.recompute.injEq] at heq
          exact Prod.ext heq.1 heq.2
        exact pending_of_leads tasks hy hleads hne
      · exact ⟨y', List.mem_append_right _ ht, hleads⟩
    · exact pending_of_leads tasks hy hleads hne
  constructor
  · exact hregular
  · exact h.steady.trans ⟨rfl, rfl⟩
  · intro n field ht
    rcases List.mem_append.1 ht with ht | ht
    · exact hahead.tail ((prompts_of_mem_followers hy ht).extend h.steady.symm.extends)
    · exact h.scope (List.mem_cons_of_mem _ ht)
  · intro z hz
    have hzy : z ≠ y := by
      rintro rfl
      exact hz hahead
    rw [put_slots_ne v hzy]
    exact h.kept hz
  · intro z hz hstale
    by_cases hzy : z = y
    · subst hzy
      obtain ⟨-, r, hset, hne⟩ := hstale
      refine absurd ?_ hne
      rw [put_outline, valueOf_completion_put h.regular ⟨m, spec, hy⟩]
      exact Option.some.inj
        (hset.result?.symm.trans (settled_put v z hready now).result?)
    · refine (hnext hzy ?_).steady ⟨rfl, rfl⟩
      exact (stale_of_put h.regular hregular (h.watchful hu) (hattached hz) hzy hstale).imp
        (h.stale hz) id
  · intro z hz hnone
    have hzy : z ≠ y := by
      rintro rfl
      simp at hnone
    rw [put_slots_ne v hzy] at hnone
    exact (hnext hzy (.inl (h.gaps hz hnone))).steady ⟨rfl, rfl⟩

end Updating

/-- **Cascades make up for what a new value has made stale.** -/
theorem cascade_updating (hu : u.Watchful asked []) (hpure : u.outline.catalog.ComputesPurely)
    (hready : u.outline.catalog.ComputesReady) (hcomplete : u.outline.Complete) :
    Cascade u.Attached (fun v z r => r = v.completion z) (Updating u x) where
  regular h := h.regular
  closed {tasks v} h := by
    constructor
    · intro z m spec reference y hz hattached href hy
      have hwatchful := h.watchful hu
      rw [h.steady.outline] at hz hy
      exact hu.attached_of_refers (h.steady.outline ▸ h.regular.sound) hattached
        ⟨m, spec, reference, hz, href, hy⟩
    · exact fun hz _ hr => (completion_of_result? h.regular hz hr).symm
    · intro z r hz _ hnone hr
      obtain ⟨m, spec, hz, hcomputed⟩ := hz
      rw [completion_eq h.regular ⟨m, spec, hz⟩, hnone, Option.getD_none]
      exact hr.eq_valueOf h.regular.sound (by rw [h.steady.outline]; exact hpure) hz hcomputed
  scope h := (h.scope List.mem_cons_self).attached hu
  fills h k := h.fills k
  report h := by
    refine h.mono (fun n field ht => ?_) fun n field ht => List.mem_cons_of_mem _ ht
    simpa using ht
  stalls {tasks v n field} h hx hr := by
    -- everything is there, so whatever is computed is ready
    obtain ⟨m, spec, hx, hcomputed⟩ := hx
    have ho := h.steady.outline
    have hvalue := hr.eq_valueOf h.regular.sound (by rw [ho]; exact hpure) hx hcomputed
    refine absurd hvalue.symm (h.regular.sound.valueOf_ne_notReady (by rw [ho]; exact hready) hx
      hcomputed ?_ fun reference href y hy => ?_)
    · rw [ho] at hx ⊢
      exact hcomplete hx
    · exact completion_ne_notReady h.regular (by rw [ho]; exact hready) (by rw [ho]; exact hcomplete)
        (h.regular.sound.has_of_target hx href hy)
  reruns {tasks v w n field m spec r} h hx hcomputed k hr hne now := by
    have hvalue := hr.eq_valueOf h.regular.sound (by rw [h.steady.outline]; exact hpure) hx hcomputed
    rw [← k.valueOf_completion h.regular ⟨m, spec, hx⟩] at hvalue
    subst hvalue
    exact (h.fills k).put hu (k.outline ▸ hx) hcomputed hne now

/-! ## §2. Before and after. -/

/-- The view after a field was given a value by hand. -/
def give (v : View) (x : Node) (value : Value) (now : Int) : View :=
  v.put x (some (.stored (Entry.ofValue value now)))

end View

/-- What the instances were given, with one value replaced. -/
def givenWith (given : Nat → Args) (x : Node) (value : Value) : Nat → Args :=
  Function.update given x.1 ((given x.1).insert x.2 value)

section Constants

variable {given : Nat → Args} {x z : Node} {value : Value}

/-- The value that is given is there. -/
theorem get?_givenWith_self : (givenWith given x value x.1).get? x.2 = some value := by
  rw [givenWith, Function.update_self, Table.get?_insert, if_pos rfl]

/-- The other values are as before. -/
theorem get?_givenWith_ne (hne : z ≠ x) :
    (givenWith given x value z.1).get? z.2 = (given z.1).get? z.2 := by
  unfold givenWith
  by_cases hn : z.1 = x.1
  · have hf : x.2 ≠ z.2 := fun hf => hne (Prod.ext hn hf.symm)
    rw [hn, Function.update_self, Table.get?_insert, if_neg hf]
  · rw [Function.update_of_ne hn]

/-- The constant of the field is the value that is given. -/
theorem constants_givenWith_self : constants (givenWith given x value) x = some (.ok value) := by
  rw [constants, get?_givenWith_self, Option.map_some]

/-- The other constants are as before. -/
theorem constants_givenWith_ne (hne : z ≠ x) :
    constants (givenWith given x value) z = constants given z := by
  rw [constants, get?_givenWith_ne hne, constants]

end Constants

namespace Coherent

variable {c : Catalog} {given : Nat → Args} {v w : View} {x z : Node} {m : Member}
  {spec : FieldSpec} {asked : Node → Prop} {value : Value} {now : Int}

/-- **Between operations, completion is evaluation.** -/
theorem completion (h : Coherent c given v) (hx : v.outline.Has x) :
    v.completion x = v.outline.evaluate (constants given) x := by
  have heq : ∀ y, v.outline.Has y → v.outline.evaluate (constants given) y
      = (v.result? y).getD (v.outline.valueOf (v.outline.evaluate (constants given)) y) := by
    intro y hy
    rcases h.regular.slot y with hnone | ⟨r, hset⟩
    · have hcomputes := h.regular.computes_of_slots hy hnone
      rw [h.regular.sound.evaluate_eq _ hy, h.known hcomputes, View.result?, hnone]
      rfl
    · rw [hset.result?, Option.getD_some]
      exact (h.memo hy hset.result?).symm
  exact (h.regular.sound.evaluate_unique heq hx).symm

/-- Between operations nothing is stale. -/
theorem not_stale (h : Coherent c given v) : ¬ v.Stale x := by
  rintro ⟨hcomputes, r, hset, hne⟩
  have hvalue : v.outline.valueOf v.completion x
      = v.outline.valueOf (v.outline.evaluate (constants given)) x := by
    obtain ⟨m, spec, hx, -⟩ := hcomputes
    exact Outline.valueOf_congr hx fun reference href y hy =>
      h.completion (h.regular.sound.has_of_target hx href hy)
  refine hne ?_
  rw [h.memo hcomputes.has hset.result?, h.regular.sound.evaluate_eq _ hcomputes.has,
    h.known hcomputes, hvalue]
  rfl

section Update

variable (h : Coherent c given v) (hwatchful : v.Watchful asked [])
  (hx : v.outline.Declares x m spec) (hstatic : spec.isStatic = true)

include hx

include h in
/-- Giving a value keeps the view regular. -/
theorem regular_give (value : Value) (now : Int) : (v.give x value now).Regular :=
  h.regular.store (r := .ok value) hx (by simp) (fun _ => ⟨value, rfl⟩) now

include hstatic

/-- The field that is updated is not computed. -/
theorem not_computes : ¬ v.Computes x := by
  rintro ⟨m', spec', hx', hcomputed⟩
  obtain ⟨-, rfl⟩ := hx.eq hx'
  simp [hstatic] at hcomputed

include h hwatchful

/-- **The start of an update**: only what the new value leads to is stale. -/
theorem updating (value : Value) (now : Int) : View.Updating (v.give x value now) x
    ((v.give x value now).followers (m.address x.2)) (v.give x value now) := by
  have hregular := h.regular_give hx value now
  have hnext : ∀ {z}, (v.give x value now).Computes z → (v.give x value now).Leads x z →
      (v.give x value now).Pending ((v.give x value now).followers (m.address x.2)) z := by
    intro z hz hleads
    have hne : z ≠ x := by
      rintro rfl
      exact not_computes hx hstatic hz
    have hpending := View.pending_of_leads [] hx hleads hne
    rwa [List.append_nil] at hpending
  constructor
  · exact hregular
  · exact .refl _
  · exact fun ht => .single (View.prompts_of_mem_followers hx ht)
  · exact fun _ => .inl rfl
  · intro z hz hstale
    have hne : z ≠ x := by
      rintro rfl
      exact not_computes hx hstatic hstale.1
    rcases View.stale_of_put h.regular hregular hwatchful hz hne hstale with hold | hleads
    · exact absurd hold h.not_stale
    · exact hnext hstale.1 (hleads.extend (View.Steady.extends ⟨rfl, rfl⟩))
  · exact fun hz _ => hnext (View.Ahead.computes hregular hz) hz.to_reflTransGen

end Update

/-! ### The end of an update. -/

section After

variable (h : Coherent c given v) (hwatchful : v.Watchful asked [])
  (hx : v.outline.Declares x m spec) (hstatic : spec.isStatic = true)
  (hw : View.Updating (v.give x value now) x [] w)

include h hx hw

/-- **What does not depend on the new value keeps its entry.** -/
theorem slots_of_not_depends {r : Outcome} (hz : (v.give x value now).Settled z r)
    (hnot : ¬ v.outline.Depends z x) : w.slots z = (v.give x value now).slots z := by
  have hahead : ¬ (v.give x value now).Ahead x z := by
    intro hahead
    have hdepends := hahead.depends (h.regular_give hx value now)
    exact hnot hdepends
  rcases hw.kept hahead with hslot | ⟨hnone, -⟩
  · exact hslot
  · obtain ⟨e, he, -⟩ := hz
    simp [hnone] at he

omit hx in
/-- What does not depend on the new value comes to the same. -/
theorem evaluate_of_not_depends (hz : v.outline.Has z) (hne : z ≠ x)
    (hnot : ¬ v.outline.Depends z x) :
    w.outline.evaluate (constants (givenWith given x value)) z
      = v.outline.evaluate (constants given) z := by
  have ho : w.outline = v.outline := hw.steady.outline
  rw [ho]
  exact h.regular.sound.evaluate_of_not_depends (fun y hy => constants_givenWith_ne hy) hz hne hnot

/-- Static fields come to what they hold. -/
theorem completion_of_static {m' : Member} {spec' : FieldSpec} (hz : v.outline.Declares z m' spec')
    (hs : spec'.isStatic = true) :
    w.completion z = w.outline.evaluate (constants (givenWith given x value)) z := by
  have ho : w.outline = v.outline := hw.steady.outline
  have hhas : w.outline.Has z := ⟨m', spec', ho ▸ hz⟩
  have hregular := h.regular_give hx value now
  have hnot := h.regular.sound.not_depends_of_static (y := x) hz hs
  obtain ⟨a, ha⟩ := hregular.stocked.given (x := z) hz hs
  have hset := ha.congr (h.slots_of_not_depends hx hw ha hnot)
  rw [View.completion_of_result? hw.regular hhas hset.result?]
  by_cases hzx : z = x
  · subst hzx
    have hput := View.settled_put v z (r := .ok value) (by simp) now
    rw [hw.regular.sound.evaluate_eq _ hhas, constants_givenWith_self, Option.getD_some]
    exact Option.some.inj (ha.result?.symm.trans hput.result?)
  · rw [h.evaluate_of_not_depends hw ⟨m', spec', hz⟩ hzx hnot]
    have hold : v.Settled z (.ok a) := ha.congr (View.put_slots_ne v hzx _).symm
    exact h.memo ⟨m', spec', hz⟩ hold.result?

include hwatchful hstatic

/-- **Registered fields come to what they evaluate to.** -/
theorem completion_of_updating (hz : v.outline.Has z) (hattached : v.Attached z) :
    w.completion z = w.outline.evaluate (constants (givenWith given x value)) z := by
  have hu : (v.give x value now).Watchful asked [] := hwatchful.steady ⟨rfl, rfl⟩ (by simp)
  have ho : w.outline = v.outline := hw.steady.outline
  refine View.completion_eq_evaluate hw.regular (hw.watchful hu) ?_ ?_ ?_ (ho ▸ hz)
    (hattached.extend (View.Steady.extends ⟨ho, hw.steady.watches⟩))
  · intro y hy hstale
    obtain ⟨y', ht, -⟩ := hw.stale (hy.extend hw.steady.symm.extends) hstale
    simp at ht
  · intro y hy
    have hy : v.Computes y := hy.congr ho.symm
    have hne : y ≠ x := by
      rintro rfl
      exact not_computes hx hstatic hy
    rw [constants_givenWith_ne hne, h.known hy]
  · exact fun hy hs => h.completion_of_static hx hw (ho ▸ hy) hs

/-- **A registered field that depends on the new value is settled** with what it
evaluates to. -/
theorem settled_of_depends (hz : v.outline.Has z) (hattached : v.Attached z)
    (hdepends : v.outline.Depends z x) :
    w.Settled z (w.outline.evaluate (constants (givenWith given x value)) z) := by
  have hu : (v.give x value now).Watchful asked [] := hwatchful.steady ⟨rfl, rfl⟩ (by simp)
  have ho : w.outline = v.outline := hw.steady.outline
  have hahead : (v.give x value now).Ahead x z :=
    View.ahead_of_depends (h.regular_give hx value now) hu hattached hdepends
  rcases hw.regular.slot z with hnone | ⟨r, hset⟩
  · obtain ⟨y, ht, -⟩ := hw.gaps hahead hnone
    simp at ht
  · rw [← h.completion_of_updating hwatchful hx hstatic hw hz hattached,
      View.completion_of_result? hw.regular (ho ▸ hz) hset.result?]
    exact hset

/-- **An update ends in a coherent view**, if everything settled that depends on
the new value is registered. -/
theorem give (hregistered : ∀ z r, v.Settled z r → v.outline.Depends z x → v.Attached z) :
    Coherent c (givenWith given x value) w where
  regular := hw.regular
  catalog := by rw [hw.steady.outline]; exact h.catalog
  memo {z r} hz hr := by
    have ho : w.outline = v.outline := hw.steady.outline
    have hz' : v.outline.Has z := ho ▸ hz
    by_cases hattached : v.Attached z
    · rw [← h.completion_of_updating hwatchful hx hstatic hw hz' hattached]
      exact (View.completion_of_result? hw.regular hz hr).symm
    by_cases hzx : z = x
    · subst hzx
      rw [← h.completion_of_static hx hw hx hstatic]
      exact (View.completion_of_result? hw.regular (ho ▸ hz') hr).symm
    · -- whoever is not registered was not touched
      have hslot : w.slots z = v.slots z := by
        have hnot : ¬ (v.give x value now).Ahead x z := fun hahead =>
          hattached (hahead.attached (hwatchful.steady ⟨rfl, rfl⟩ (by simp)))
        rcases hw.kept hnot with hslot | ⟨-, hyes⟩
        · exact hslot.trans (View.put_slots_ne v hzx _)
        · exact absurd hyes hattached
      have hold : v.result? z = some r := (View.result?_congr hslot).symm.trans hr
      have hnot : ¬ v.outline.Depends z x := by
        intro hdepends
        rcases h.regular.slot z with hnone | ⟨r', hset⟩
        · simp [View.result?, hnone] at hold
        · exact hattached (hregistered z r' hset hdepends)
      rw [h.evaluate_of_not_depends hw hz' hzx hnot]
      exact h.memo hz' hold
  static {z m' spec' a} hz ha := by
    have ho : w.outline = v.outline := hw.steady.outline
    have hz : v.outline.Declares z m' spec' := ho ▸ hz
    by_cases hzx : z = x
    · subst hzx
      obtain ⟨-, rfl⟩ := hz.eq hx
      exact hstatic
    · rw [get?_givenWith_ne hzx] at ha
      exact h.static hz ha

end After

end Coherent

end LazyFields
