/-
  LazyFields.Proofs.Session.Gaps
  ────────────────────────────────
  **COMPUTING ONLY FILLS GAPS.**

  To compute a field is to compute and read its references first, on other
  instances as well, and reading can compute and run watchers.  It does not get
  that far: what is read was computed just before, so it has an entry, and
  where computing fails nothing is read.

  Nothing is asked of the session.  References may form cycles or lead nowhere,
  owners may hold claims, and the session may have ended.

    · `Outline.Reaches` — the fields that a field refers to, on the way as well
    · `Writes` — what computing may write down, while claims are held
    · `filling_computeField`, `fills_perform` — computing writes no more than
      that, and is not told from computing without watchers
    · `compute_fills_gaps` — in the end, what has changed was open, is settled,
      and is reached from the field
-/
import LazyFields.Proofs.Session.Memoizing
import LazyFields.Proofs.Session.Provenance
import LazyFields.Proofs.Session.Undisturbed
import Mathlib.Logic.Relation

namespace LazyFields

/-! ## §1. What a field refers to. -/

namespace Outline

/-- A reference of the first node points to the second one. -/
def AimsAt (o : Outline) (x y : Node) : Prop :=
  ∃ m spec reference address, o.member? x.1 = some m ∧ m.kind.info.field? x.2 = some spec
    ∧ reference ∈ spec.refs ∧ o.aim x.1 m reference = .ok ⟨some y.1, y.2, address⟩

/-- The second node is the first one, or one that it refers to, maybe on the way. -/
def Reaches (o : Outline) : Node → Node → Prop := Relation.ReflTransGen o.AimsAt

end Outline

namespace View

/-- Reading the node computes nothing. -/
def Idle (v : View) (x : Node) : Prop :=
  ∀ spec, v.outline.spec? x = some spec → spec.isStatic = true ∨ v.Finished x

/-- A node that shows a settled entry is not open, whether it is claimed or not. -/
theorem not_open_of_seen {v : View} {x : Node} {e : Entry}
    (h : (v.slots x).bind Slot.seen = some e) (hsettled : e.isSettled = true) : ¬ v.Open x := by
  rintro ⟨hidle, hunsettled⟩
  obtain ⟨sl, hslot, hseen⟩ := Option.bind_eq_some_iff.1 h
  cases sl with
  | stored e' =>
    obtain rfl : e' = e := Option.some.inj hseen
    exact hunsettled ⟨e', hslot, hsettled⟩
  | computing previous => exact hidle ⟨previous, hslot⟩

end View

/-! ## §2. What is written. -/

/-- The event is a call of the logic of a field. -/
def Event.IsComputed : Event → Prop
  | .computed .. => True
  | _ => False

/-- Logic of fields was called up to a journal, and then up to the next one. -/
theorem Event.computed_trans {before mid after : List Event}
    (h : ∃ events, mid = events ++ before ∧ ∀ e ∈ events, e.IsComputed)
    (k : ∃ events, after = events ++ mid ∧ ∀ e ∈ events, e.IsComputed) :
    ∃ events, after = events ++ before ∧ ∀ e ∈ events, e.IsComputed := by
  obtain ⟨early, rfl, hearly⟩ := h
  obtain ⟨late, rfl, hlate⟩ := k
  refine ⟨late ++ early, (List.append_assoc late early before).symm, ?_⟩
  exact fun e he => (List.mem_append.1 he).elim (hlate e) (hearly e)

namespace Session

open LazyFields.Action (Copies)

variable {c : Catalog} {D : Node → Prop} {s t u : Session} {x : Node} {n : Nat} {i : Instance}
  {m : Member} {α : Type}

/-- Slots in `D` were written at most, and the logic of fields was called at most. -/
structure Writes (D : Node → Prop) (s t : Session) : Prop where
  outline : t.view.outline = s.view.outline
  watches : t.watches = s.watches
  slots : ∀ y, ¬ D y → t.view.slots y = s.view.slots y
  journal : ∃ events, t.journal = events ++ s.journal ∧ ∀ e ∈ events, e.IsComputed

namespace Writes

theorem refl (D : Node → Prop) (s : Session) : Writes D s s :=
  ⟨rfl, rfl, fun _ _ => rfl, [], rfl, by simp⟩

theorem trans (h : Writes D s t) (k : Writes D t u) : Writes D s u where
  outline := k.outline.trans h.outline
  watches := k.watches.trans h.watches
  slots y hy := (k.slots y hy).trans (h.slots y hy)
  journal := Event.computed_trans h.journal k.journal

theorem member? (h : Writes D s t) (hm : s.view.outline.member? n = some m) :
    ∃ i, t.instance? n = some i ∧ i.member = m :=
  instance_of_member? (h.outline ▸ hm)

/-- One slot is written. -/
theorem setSlot (hi : s.instance? x.1 = some i) (hx : D x) (sl : Option Slot) :
    Writes D s (s.setCache x.1 (i.cache.setSlot x.2 sl)) where
  outline := outline_setCache s x.1 _
  watches := rfl
  slots y hy := by
    have hne : y ≠ x := by
      rintro rfl
      exact hy hx
    rw [view_setSlot hi x.2 sl, View.put_slots_ne _ hne]
  journal := ⟨[], rfl, by simp⟩

/-- The logic of a field is called, if there is any. -/
theorem called (D : Node → Prop) (s : Session) (m : Member) (field : String)
    (values : List Value) : Writes D s (s.called m field values) where
  outline := congrArg View.outline (view_called s m field values)
  watches := congrArg View.watches (view_called s m field values)
  slots y _ := congrFun (congrArg View.slots (view_called s m field values)) y
  journal := by
    unfold Session.called
    split
    · exact ⟨[_], rfl, fun e he => List.mem_singleton.1 he ▸ trivial⟩
    · exact ⟨[], rfl, by simp⟩

end Writes

/-! ## §3. Computing writes no more. -/

/-- Whatever the first action answers, the second one answers too, and no more is
written on the way. -/
def Filling (D : Node → Prop) (s : Session) (a b : Action α) : Prop :=
  Copies (Writes D s) a b fun _ => Writes D s

end Session

/-- What the first performer answers to computing a field, and to reading one that
was computed, the second one answers too, and no more is written on the way. -/
structure Performer.Fills (D : Node → Prop) (s : Session) (call call' : Performer) : Prop where
  compute : ∀ {x}, D x → Action.Copies (s.Writes D) (call (.compute x.1 x.2))
    (call' (.compute x.1 x.2)) fun r t => s.Writes D t ∧ (r = .ok () → t.view.Idle x)
  field : ∀ {x}, Action.Copies (fun t => s.Writes D t ∧ t.view.Idle x) (call (.field x.1 x.2))
    (call' (.field x.1 x.2)) fun _ => s.Writes D

namespace Session

open LazyFields.Action (Copies runOn_attempt)

variable {c : Catalog} {D : Node → Prop} {s t : Session} {x : Node} {n : Nat} {m : Member}
  {call call' : Performer}

theorem filling_abandon (hm : s.view.outline.member? x.1 = some m) (hx : D x) (e : Error) :
    Filling D s (abandon x.1 x.2 e) (abandon x.1 x.2 e) := by
  refine .same fun t ht a u hrun => ?_
  obtain ⟨i, hi, rfl⟩ := ht.member? hm
  cases (runOn_abandon hi e).symm.trans hrun
  exact ht.trans (.setSlot hi hx _)

theorem filling_conclude (hm : s.view.outline.member? x.1 = some m) (hx : D x) (r : Outcome) :
    Filling D s (conclude x.1 x.2 r) (conclude x.1 x.2 r) := by
  refine .same fun t ht a u hrun => ?_
  obtain ⟨i, hi, rfl⟩ := ht.member? hm
  by_cases hr : r = .error .notReady
  · subst hr
    cases (runOn_conclude_notReady hi).symm.trans hrun
    exact ht.trans (.setSlot hi hx _)
  · cases (runOn_conclude hi hr).symm.trans hrun
    exact ht.trans (.setSlot hi hx _)

/-- Logic that asks nothing is called, whoever would perform what it asks. -/
theorem filling_runLogic (ho : s.view.outline.Standing)
    (hm : s.view.outline.member? x.1 = some m) (hx : D x) (spec : FieldSpec)
    (values : List Value) :
    Filling D s (runLogic call x.1 spec x.2 values) (runLogic call' x.1 spec x.2 values) := by
  refine .of_forall fun t ht => ?_
  obtain ⟨i, hi, rfl⟩ := ht.member? hm
  have hcalled := ht.trans (.called D t i.member x.2 values)
  rintro _ rfl a u hrun
  rw [runOn_runLogic hi (ho.alone hm)] at hrun ⊢
  exact filling_conclude hm hx _ _ hcalled a u hrun

/-- References are computed and read, each within `D`. -/
theorem filling_gather (hcall : call.Fills D s call')
    (hm : s.view.outline.member? n = some m) (refs : List String)
    (hrefs : ∀ reference ∈ refs, ∀ y : Node, ∀ address,
      s.view.outline.aim n m reference = .ok ⟨some y.1, y.2, address⟩ → D y) :
    Filling D s (gather call n refs) (gather call' n refs) := by
  induction refs with
  | nil => exact .pure fun _ ht => ht
  | cons reference refs ih =>
    refine .of_forall fun t ht => ?_
    obtain ⟨i, hi, rfl⟩ := ht.member? hm
    have haim := runOn_aim hi reference
    rw [ht.outline] at haim
    unfold gather
    refine .next ((runOn_attempt _ t).trans (by rw [haim]; rfl)) ?_
    cases htarget : s.view.outline.aim n i.member reference with
    | error e => exact .pure fun _ heq => heq ▸ ht
    | ok target =>
      obtain ⟨_ | source, field, address⟩ := target
      · exact .pure fun _ heq => heq ▸ ht
      · have hD : D (source, field) :=
          hrefs reference List.mem_cons_self (source, field) address htarget
        have hread : Copies (Writes D s)
            (do call (.compute source field); call (.field source field))
            (do call' (.compute source field); call' (.field source field))
            fun _ => Writes D s := by
          refine .bind (hcall.compute hD) (fun _ => ?_) fun _ _ hu => hu.1
          -- what was computed without an error is read as it is
          refine (hcall.field (x := (source, field))).of_imp ?_
          rintro u ⟨hu, hidle⟩
          exact ⟨hu, hidle rfl⟩
        refine .attempt_bind (hread.of_imp fun _ heq => heq ▸ ht) fun r => ?_
        have hmore := ih fun r hr => hrefs r (List.mem_cons_of_mem _ hr)
        cases r with
        | error e => cases e <;> exact .pure fun _ hu => hu
        | ok v =>
          refine .bind hmore (fun g => ?_) fun _ _ hu => hu
          cases g <;> exact .pure fun _ hu => hu

/-- **Computing writes within `D`,** forced or not, if `D` has the field and what it
refers to. -/
theorem filling_computeField (ho : s.view.outline.Standing) (hcall : call.Fills D s call')
    (hx : D x) (hbelow : ∀ y, s.view.outline.AimsAt x y → D y) (force : Bool) :
    Filling D s (computeField call x.1 x.2 force) (computeField call' x.1 x.2 force) := by
  refine .of_forall fun t ht => ?_
  cases hi : t.instance? x.1 with
  | none =>
    rintro _ rfl a u hrun
    simp [computeField, declared, Action.runOn_bind, runOn_getInstance_of_none hi] at hrun
  | some i =>
    have hm : s.view.outline.member? x.1 = some i.member := by
      rw [← ht.outline]
      exact member?_of_instance hi
    cases hfield : i.kind.info.field? x.2 with
    | none =>
      refine .of_runOn (r := .error (.unknownField i.kind.name x.2)) (t := t) ?_ ?_ ht
      · rw [computeField, Action.runOn_bind, runOn_declared_of_none hi hfield]
      · rw [computeField, Action.runOn_bind, runOn_declared_of_none hi hfield]
    | some spec =>
      unfold computeField
      refine .next (runOn_declared hi hfield) ?_
      split
      · exact .pure fun _ heq => heq ▸ ht
      · refine .next (runOn_onCache hi _) ?_
        have hgather := filling_gather hcall hm spec.refs fun reference href y address haim =>
          hbelow y ⟨i.member, spec, reference, address, hm, hfield, href, haim⟩
        -- the claim is refused, not needed or granted
        rcases claims hi force with ⟨-, hclaim⟩ | ⟨-, hclaim⟩ | ⟨-, -, hclaim⟩
        · rw [hclaim, setCache_self hi]
          exact .throw fun _ heq => heq ▸ ht
        · rw [hclaim, setCache_self hi]
          exact .pure fun _ heq => heq ▸ ht
        · rw [hclaim]
          refine .bind (hgather.of_imp ?_) (fun g => ?_) fun _ _ hu => hu
          · rintro _ rfl
            exact ht.trans (.setSlot hi hx _)
          · cases g with
            | values vs => exact filling_runLogic ho hm hx spec vs
            | blocked e => exact filling_abandon hm hx e
            | failed e => exact filling_conclude hm hx (.error e)

/-- Reading a field that was computed, or is never computed, computes nothing. -/
theorem filling_readField : Copies (fun t => Writes D s t ∧ t.view.Idle x)
    (readField call x.1 x.2) (readField call' x.1 x.2) fun _ => Writes D s := by
  refine .of_forall fun t ht => ?_
  obtain ⟨ht, hidle⟩ := ht
  cases hi : t.instance? x.1 with
  | none =>
    rintro _ rfl a u hrun
    simp [readField, declared, Action.runOn_bind, runOn_getInstance_of_none hi] at hrun
  | some i =>
    have hresult : ∀ spec, i.kind.info.field? x.2 = some spec →
        spec.isStatic = true ∨ (i.cache.result? x.2).isSome := by
      intro spec hspec
      have hspec' : t.view.outline.spec? x = some spec :=
        (Outline.spec?_of_member (member?_of_instance hi)).trans hspec
      refine (hidle spec hspec').imp_right fun hfinished => ?_
      obtain ⟨r, hr⟩ := hfinished.result?
      rw [← result?_of_instance hi, hr]
      rfl
    obtain ⟨r, hread⟩ := runOn_readField_of_idle hi hresult
    exact .of_runOn (hread call) (hread call') ht

/-- Computing finishes open nodes only, and the field is one of them if there is no
error. -/
theorem advances_of_compute (ho : s.view.outline.Standing) {fuel : Nat} {a : Except Error Unit}
    (hrun : s.run fuel (.compute x.1 x.2) = some (a, t)) :
    s.view.Advances t.view ∧ (a = .ok () → t.view.Idle x) := by
  cases hi : s.instance? x.1 with
  | none =>
    cases fuel with
    | zero => simp [Session.run, perform] at hrun
    | succ fuel =>
      simp [Session.run, perform, step, computeField, declared, Action.runOn_bind,
        runOn_getInstance_of_none hi] at hrun
  | some i =>
    have hend := compute_advances ho s.view.outline.nodes x i.member (member?_of_instance hi) s rfl
      fun _ _ hy _ => Outline.mem_nodes hy
    obtain ⟨hadvances, hfinished⟩ := hend.of_run hrun
    exact ⟨hadvances, fun ha spec hspec => hfinished ha spec (hadvances.outline ▸ hspec)⟩

/-- **Performing fills gaps and runs no watcher,** in any `D` that has what its fields
refer to. -/
theorem fills_perform (ho : s.view.outline.Standing)
    (hclosed : ∀ {x y}, D x → s.view.outline.AimsAt x y → D y) (fuel : Nat) :
    (perform fuel).Fills D s (performQuietly fuel) := by
  induction fuel with
  | zero =>
    refine ⟨fun _ _ _ r t hrun => ?_, fun _ _ r t hrun => ?_⟩
    · simp [perform] at hrun
    · simp [perform] at hrun
  | succ fuel ih =>
    refine ⟨fun {x} hx => ?_, copies_performQuietly (fun _ _ => rfl) filling_readField⟩
    have hfilling : Filling D s (perform (fuel + 1) (.compute x.1 x.2))
        (performQuietly (fuel + 1) (.compute x.1 x.2)) :=
      copies_performQuietly (fun _ _ => rfl)
        (filling_computeField ho ih hx (fun y => hclosed hx) false)
    intro t ht a u hrun
    obtain ⟨hcopy, hu⟩ := hfilling t ht a u hrun
    exact ⟨hcopy, hu, (advances_of_compute (ht.outline ▸ ho) hrun).2⟩

/-! ## §4. What is left in the end. -/

/-- The second session is the first one after gaps below a node were filled: nothing was
created, published or watched, every entry that was settled is the same, a slot that
has changed was open, is settled and belongs to a field that the node reaches, and
nothing was called but logic of fields. -/
structure FillsGaps (s : Session) (x : Node) (t : Session) : Prop where
  outline : t.outline = s.outline
  watches : t.watches = s.watches
  settled : ∀ {y e}, (s.slot? y).bind Slot.seen = some e → e.isSettled = true →
    t.slot? y = s.slot? y
  filled : ∀ {y}, t.slot? y ≠ s.slot? y →
    s.outline.Reaches x y ∧ s.view.Open y ∧ t.view.Finished y
  called : ∃ events, t.journal = events ++ s.journal ∧ ∀ e ∈ events, e.IsComputed

/-- **Computing only fills gaps.**  On every session of a catalog whose logic asks nothing,
computing a field of an instance ends.  It is not told from computing without
watchers, and whatever it answers, it leaves the session as `FillsGaps` says. -/
theorem compute_fills_gaps {c : Catalog} (halone : c.ComputesAlone) (hs : s.StemsFrom c)
    {i : Instance} (hi : s.instance? n = some i) (field : String) :
    (∃ fuel, (s.run fuel (.compute n field)).isSome)
      ∧ ∀ fuel a t, s.run fuel (.compute n field) = some (a, t) →
        (performQuietly fuel (.compute n field)).runOn s = some (a, t)
          ∧ s.FillsGaps (n, field) t := by
  have ho := hs.standing halone
  constructor
  · obtain ⟨fuel, a, t, hrun, -⟩ :=
      (compute_advances_all (x := (n, field)) ho (member?_of_instance hi)).run
    exact ⟨fuel, by rw [hrun]; rfl⟩
  · intro fuel a t hrun
    have hfills := fills_perform (D := s.view.outline.Reaches (n, field)) ho
      (fun hx hxy => hx.tail hxy) fuel
    obtain ⟨hquiet, hwrites, -⟩ := hfills.compute .refl s (.refl _ s) a t hrun
    obtain ⟨hadvances, -⟩ := advances_of_compute (x := (n, field)) ho hrun
    refine ⟨hquiet, hadvances.outline, hadvances.watches, ?_, ?_, hwrites.journal⟩
    · intro y e he hsettled
      refine (hadvances.slots y).resolve_right fun hchanged => ?_
      exact View.not_open_of_seen he hsettled hchanged.1
    · intro y hne
      refine ⟨Classical.byContradiction fun hout => hne (hwrites.slots y hout), ?_⟩
      exact (hadvances.slots y).resolve_left hne

section Example

open LazyFields.Sample (after createX)

/-- The sample with both instances; nothing is computed yet. -/
def unfilled : Session := after Sample.hasR createX

theorem stemsFrom_unfilled : unfilled.StemsFrom Sample.catalog := by
  obtain ⟨_, hx⟩ := Sample.run_after Sample.hasR createX (by decide +kernel)
  exact .run stemsFrom_hasR hx

/-- Two gaps are filled: the field, and the one between it and a static field. -/
theorem compute_fills_gaps_unfilled :
    Sample.catalog.ComputesAlone ∧ unfilled.StemsFrom Sample.catalog
      ∧ (∃ i, unfilled.instance? 0 = some i)
      ∧ ∃ a t, unfilled.run 20 (.compute 0 "f") = some (a, t)
        ∧ (performQuietly 20 (.compute 0 "f")).runOn unfilled = some (a, t)
        ∧ unfilled.FillsGaps (0, "f") t
        ∧ ["f", "g", "h"].map (fun f => ((unfilled.slot? (0, f)).isSome, (t.slot? (0, f)).isSome))
          = [(false, true), (false, true), (false, false)] := by
  obtain ⟨i, hi⟩ := Option.isSome_iff_exists.1
    (show (unfilled.instance? 0).isSome = true by decide +kernel)
  obtain ⟨a, hrun⟩ := Sample.run_after unfilled (.compute 0 "f") (by decide +kernel)
  obtain ⟨hquiet, hfills⟩ := (compute_fills_gaps Sample.computesPurely.1 stemsFrom_unfilled hi
    "f").2 20 _ _ hrun
  exact ⟨Sample.computesPurely.1, stemsFrom_unfilled, ⟨i, hi⟩, a, _, hrun, hquiet, hfills,
    by decide +kernel⟩

end Example

end Session

end LazyFields
