/-
  LazyFields.Proofs.Session.Claims
  ────────────────────────────────
  **COMPUTING ENDS ON EVERY GRAPH OF REFERENCES.**

  Nothing is asked of the references here: they may form cycles, point to
  fields that nobody declared and name kinds that nobody loaded, the session
  may have ended, and owners may hold claims.  Computing claims a field before
  it looks at its references, and keeps the claim while it does; so the declared
  fields that are not claimed take the place of the rank that acyclic references
  have, and become fewer with every reference that is followed.

  - `View.Advances` — what computing changes: open fields are finished
  - `compute_open_ends` — a claim that is granted ends with an entry, or is given
    up
  - `compute_advances` — computing ends, and changes nothing else
-/
import LazyFields.Proofs.Session.Tasks

namespace LazyFields

/-! ## §1. What computing changes. -/

namespace View

variable {u v w : View} {x y : Node}

/-- A computation holds the node. -/
def Busy (v : View) (x : Node) : Prop := ∃ previous, v.slots x = some (.computing previous)

/-- An entry is stored that leaves nothing to compute. -/
def Finished (v : View) (x : Node) : Prop := ∃ e, v.slots x = some (.stored e) ∧ e.isSettled = true

/-- A claim of the node is granted. -/
def Open (v : View) (x : Node) : Prop := ¬ v.Busy x ∧ ¬ v.Finished x

/-- Some open nodes are finished now. -/
structure Advances (v w : View) : Prop where
  outline : w.outline = v.outline
  watches : w.watches = v.watches
  slots : ∀ x, w.slots x = v.slots x ∨ v.Open x ∧ w.Finished x

/-- Only the slot counts. -/
theorem Busy.congr (h : v.Busy x) (hslot : w.slots x = v.slots x) : w.Busy x := by
  obtain ⟨previous, hbusy⟩ := h
  exact ⟨previous, hslot.trans hbusy⟩

/-- Only the slot counts. -/
theorem Finished.congr (h : v.Finished x) (hslot : w.slots x = v.slots x) : w.Finished x := by
  obtain ⟨e, he, hsettled⟩ := h
  exact ⟨e, hslot.trans he, hsettled⟩

/-- Only the slot counts. -/
theorem Open.congr (h : v.Open x) (hslot : w.slots x = v.slots x) : w.Open x :=
  ⟨fun hbusy => h.1 (hbusy.congr hslot.symm), fun hfinished => h.2 (hfinished.congr hslot.symm)⟩

/-- A finished field has a result. -/
theorem Finished.result? (h : v.Finished x) : ∃ r, v.result? x = some r := by
  obtain ⟨e, he, hsettled⟩ := h
  rw [result?_of_stored he]
  unfold Entry.result?
  unfold Entry.isSettled at hsettled
  cases herror : e.error with
  | some err => exact ⟨.error err, rfl⟩
  | none =>
    rw [herror, Option.isSome_none, Bool.or_false] at hsettled
    exact ⟨.ok e.data, by simp only [hsettled, if_true]⟩

namespace Advances

theorem refl (v : View) : v.Advances v := ⟨rfl, rfl, fun _ => Or.inl rfl⟩

/-- A field that is being computed keeps its claim. -/
theorem slots_of_busy (h : v.Advances w) (hx : v.Busy x) : w.slots x = v.slots x := by
  cases h.slots x with
  | inl hslot => exact hslot
  | inr hchanged => exact absurd hx hchanged.1.1

/-- A finished field keeps its result. -/
theorem slots_of_finished (h : v.Advances w) (hx : v.Finished x) : w.slots x = v.slots x := by
  cases h.slots x with
  | inl hslot => exact hslot
  | inr hchanged => exact absurd hx hchanged.1.2

/-- What is still open was not touched. -/
theorem slots_of_open (h : v.Advances w) (hx : w.Open x) : w.slots x = v.slots x := by
  cases h.slots x with
  | inl hslot => exact hslot
  | inr hchanged => exact absurd hchanged.2 hx.2

/-- So it is being computed still. -/
theorem busy (h : v.Advances w) (hx : v.Busy x) : w.Busy x := hx.congr (h.slots_of_busy hx)

/-- Advancing, and advancing again. -/
theorem trans (h : u.Advances v) (k : v.Advances w) : u.Advances w where
  outline := k.outline.trans h.outline
  watches := k.watches.trans h.watches
  slots x := by
    cases h.slots x with
    | inl hslot => exact (k.slots x).imp (·.trans hslot) (And.imp_left (·.congr hslot.symm))
    | inr hchanged =>
      -- what is finished stays finished
      exact Or.inr ⟨hchanged.1, hchanged.2.congr (k.slots_of_finished hchanged.2)⟩

/-- What is done to a claimed node while others settle: it gets back what it held, or
is finished. -/
theorem of_claimed (hx : v.Open x) {previous : Option Entry}
    (h : (v.put x (some (.computing previous))).Advances w) {sl : Option Slot}
    (hsl : sl = v.slots x ∨ ∃ e, sl = some (.stored e) ∧ e.isSettled = true) :
    v.Advances (w.put x sl) where
  outline := h.outline
  watches := h.watches
  slots y := by
    by_cases hy : y = x
    · subst hy
      rw [put_slots_self]
      refine hsl.imp_right fun hfinished => ⟨hx, ?_⟩
      obtain ⟨e, he, hsettled⟩ := hfinished
      exact ⟨e, (put_slots_self ..).trans he, hsettled⟩
    · rw [put_slots_ne w hy]
      have hclaimed := put_slots_ne v hy (some (.computing previous))
      cases h.slots y with
      | inl hslot => exact Or.inl (hslot.trans hclaimed)
      | inr hchanged =>
        exact Or.inr ⟨hchanged.1.congr hclaimed.symm, hchanged.2.congr (put_slots_ne w hy sl)⟩

end Advances

/-- A view that advances keeps outline and watch graph, so it extends. -/
theorem Advances.extends (h : v.Advances w) : v.Extends w :=
  Steady.extends ⟨h.outline, h.watches⟩

end View

/-! ## §2. Outlines that stand. -/

namespace Outline

variable {o : Outline} {n : Nat} {m : Member} {x : Node}

/-- What is published is there, and no field has logic that asks the session. -/
structure Standing (o : Outline) : Prop where
  published : ∀ {address n}, o.published.get? address = some n → ∃ m, o.member? n = some m
  alone : ∀ {n m field logic}, o.member? n = some m → m.kind.compute? field = some logic →
    ∀ self values number, (logic self values number).IsPassive

/-- The declaration of a field of an instance, discarded or not. -/
def spec? (o : Outline) (x : Node) : Option FieldSpec :=
  (o.member? x.1).bind fun m => m.kind.info.field? x.2

/-- The field of a member is that of its kind. -/
theorem spec?_of_member (h : o.member? x.1 = some m) : o.spec? x = m.kind.info.field? x.2 := by
  rw [spec?, h]
  rfl

/-- All declared fields of all instances. -/
def nodes (o : Outline) : List Node :=
  (List.range o.members.length).flatMap fun n =>
    match o.member? n with
    | none => []
    | some m => m.kind.info.fields.keys.map fun field => (n, field)

/-- A declared field is a node of the outline. -/
theorem mem_nodes {spec : FieldSpec} (h : o.spec? x = some spec) : x ∈ o.nodes := by
  obtain ⟨m, hm, hfield⟩ := Option.bind_eq_some_iff.1 h
  have hlt : x.1 < o.members.length := (List.getElem?_eq_some_iff.1 hm).1
  refine List.mem_flatMap.2 ⟨x.1, List.mem_range.2 hlt, ?_⟩
  rw [hm]
  refine List.mem_map.2 ⟨x.2, ?_, rfl⟩
  rw [← Table.contains_iff_mem_keys]
  show (m.kind.info.fields.get? x.2).isSome = true
  rw [show m.kind.info.fields.get? x.2 = some spec from hfield]
  rfl

/-- Where a reference of an instance points, without the session around it. -/
def aim (o : Outline) (n : Nat) (m : Member) (reference : String) :
    Except Error Session.Target :=
  match splitReference reference with
  | (none, field) => .ok ⟨some n, field, m.address field⟩
  | (some kind, field) =>
      if o.live then
        (o.catalog.get kind).map fun k =>
          ⟨(o.catalog.get k.name).toOption.bind fun k' =>
            o.published.get? (instanceAddress k'.name ""), field, fieldAddress k.name "" field⟩
      else .error (.failure ("runtime of \"" ++ m.kind.name ++ "\" was dropped"))

/-- The addresses of all references of declared fields. -/
def addresses (o : Outline) : List String :=
  o.nodes.flatMap fun x =>
    match o.member? x.1 with
    | none => []
    | some m => ((m.kind.info.field? x.2).elim [] FieldSpec.refs).filterMap fun reference =>
        (o.aim x.1 m reference).toOption.map Session.Target.address

/-- What a reference aims at is an address of the outline. -/
theorem mem_addresses {spec : FieldSpec} (hm : o.member? x.1 = some m)
    (hfield : m.kind.info.field? x.2 = some spec) {reference : String}
    (href : reference ∈ spec.refs) {target : Session.Target}
    (h : o.aim x.1 m reference = .ok target) : target.address ∈ o.addresses := by
  have hspec : o.spec? x = some spec := (spec?_of_member hm).trans hfield
  refine List.mem_flatMap.2 ⟨x, mem_nodes hspec, ?_⟩
  rw [hm]
  refine List.mem_filterMap.2 ⟨reference, ?_, ?_⟩
  · rw [hfield]
    exact href
  · rw [h]
    rfl

/-- What a reference points to is there. -/
theorem Standing.member_of_aim (ho : o.Standing) (hm : o.member? n = some m)
    {reference field address : String} {source : Nat}
    (h : o.aim n m reference = .ok ⟨some source, field, address⟩) :
    ∃ m', o.member? source = some m' := by
  unfold aim at h
  split at h
  · cases h
    exact ⟨m, hm⟩
  · split at h
    · next kind field' hsplit hlive =>
      cases hget : o.catalog.get kind with
      | error e =>
        rw [hget] at h
        cases h
      | ok k =>
        rw [hget] at h
        have hsource := congrArg Session.Target.inst (Except.ok.inj h)
        obtain ⟨k', -, hpublished⟩ := Option.bind_eq_some_iff.1 hsource
        exact ho.published hpublished
    · cases h

end Outline

namespace Session

open LazyFields.Action

variable {s t : Session} {o : Outline} {x y : Node} {n : Nat} {i : Instance} {m : Member}
  {spec : FieldSpec}

/-! ## §3. Steps of a computation. -/

/-- What a reference aims at is what finding its target answers. -/
theorem runOn_aim (hi : s.instance? n = some i) (reference : String) :
    (targetOf n reference).runOn s
      = some (s.view.outline.aim n i.member reference, s) := by
  unfold targetOf Outline.aim
  rcases splitReference reference with ⟨_ | kind, field⟩
  · simp only [runOn_bind, runOn_getInstance hi, runOn_pure]
    rfl
  · have hlive : s.view.outline.live = s.live := rfl
    rw [hlive]
    cases hrun : s.live with
    | false =>
      rw [runOn_bind, runOn_requireLive_of_ended hi hrun]
      rfl
    | true =>
      simp only [runOn_bind, runOn_requireLive hi hrun, runOn_get, runOn_ofResult, if_true]
      show _ = some ((s.catalog.get kind).map _, s)
      cases s.catalog.get kind with
      | error e => rfl
      | ok k =>
        simp only [runOn_pure, toOption_find]
        rfl

/-- A field that is finished, or never computed, is read as it is. -/
theorem field_idle_ends (hm : s.view.outline.member? x.1 = some m)
    (h : ∀ spec, m.kind.info.field? x.2 = some spec → spec.isStatic = true ∨ s.view.Finished x) :
    Ends (fun call => call (.field x.1 x.2)) s fun _ t => t = s := by
  obtain ⟨i, hi, rfl⟩ := instance_of_member? hm
  have hidle : ∀ spec, i.kind.info.field? x.2 = some spec →
      spec.isStatic = true ∨ (i.cache.result? x.2).isSome := by
    refine fun spec hspec => (h spec hspec).imp_right fun hfinished => ?_
    obtain ⟨r, hr⟩ := hfinished.result?
    rw [← result?_of_instance hi, hr]
    rfl
  obtain ⟨r, hread⟩ := runOn_readField_of_idle hi hidle
  exact .call (.of_runOn (fun call => hread call) rfl)

/-- The session after a claim of a node. -/
def claimed (s : Session) (x : Node) : Session :=
  match s.instance? x.1 with
  | none => s
  | some i => s.setCache x.1 (i.cache.claim x.2 false).2

/-- A field that is open is claimed, and only its slot changes. -/
theorem view_claimed (hi : s.instance? x.1 = some i) (hopen : s.view.Open x) :
    (i.cache.claim x.2 false).1 = .acquired ∧ ∃ previous : Option Entry,
      previous.map Slot.stored = s.view.slots x
        ∧ (s.claimed x).view = s.view.put x (some (.computing previous)) := by
  have hunsettled : ∀ e, s.view.slots x = some (.stored e) → e.isSettled = false := by
    intro e he
    cases hsettled : e.isSettled with
    | false => rfl
    | true => exact absurd ⟨e, he, hsettled⟩ hopen.2
  have hidle : ∀ previous, s.view.slots x ≠ some (.computing previous) :=
    fun previous hbusy => hopen.1 ⟨previous, hbusy⟩
  obtain ⟨previous, hprevious, hclaim⟩ :
      ∃ previous : Option Entry, previous.map Slot.stored = s.view.slots x
        ∧ i.cache.claim x.2 false
          = (.acquired, i.cache.setSlot x.2 (some (.computing previous))) :=
    exists_claim hi hidle (Or.inr hunsettled)
  refine ⟨congrArg Prod.fst hclaim, previous, hprevious, ?_⟩
  unfold claimed
  rw [hi]
  show (s.setCache x.1 (i.cache.claim x.2 false).2).view = _
  rw [hclaim]
  exact view_setSlot hi x.2 _

/-- The claim of an open node is granted. -/
theorem runOn_claim_of_open (hi : s.instance? x.1 = some i) (hopen : s.view.Open x) :
    (onCache x.1 (·.claim x.2 false)).runOn s = some (.ok .acquired, s.claimed x) := by
  rw [runOn_onCache hi, (view_claimed hi hopen).1]
  unfold claimed
  rw [hi]

/-- A field that is being computed is not claimed. -/
theorem claim_of_busy (hi : s.instance? x.1 = some i) (h : s.view.Busy x) :
    i.cache.claim x.2 false = (.busy, i.cache) := by
  obtain ⟨previous, hbusy⟩ := h
  have hslot : i.cache.slot? x.2 = some (.computing previous) :=
    (slots_of_instance hi x.2).symm.trans hbusy
  unfold Cache.claim
  rw [hslot]

/-- A finished field is not claimed either; its entry is the answer. -/
theorem claim_of_finished (hi : s.instance? x.1 = some i) (h : s.view.Finished x) :
    ∃ e, i.cache.claim x.2 false = (.ready e, i.cache) := by
  obtain ⟨e, hslot, hsettled⟩ := h
  exact ⟨e, claim_of_stored hi hslot hsettled⟩

/-- A claim that was granted was a claim of an open node. -/
theorem open_of_acquired (hi : s.instance? x.1 = some i)
    (h : (i.cache.claim x.2 false).1 = .acquired) : s.view.Open x := by
  constructor
  · intro hbusy
    rw [claim_of_busy hi hbusy] at h
    cases h
  · intro hfinished
    obtain ⟨e, hclaim⟩ := claim_of_finished hi hfinished
    rw [hclaim] at h
    cases h

/-- A field that is being computed is not computed twice. -/
theorem compute_busy_ends (hi : s.instance? x.1 = some i)
    (hfield : i.kind.info.field? x.2 = some spec) (hcomputed : spec.isStatic = false)
    (hbusy : s.view.Busy x) :
    Ends (fun call => call (.compute x.1 x.2)) s fun a t => a = .error .notReady ∧ t = s := by
  have hclaim : (onCache x.1 (·.claim x.2 false)).runOn s = some (.ok .busy, s) := by
    rw [runOn_onCache hi, claim_of_busy hi hbusy, setCache_self hi]
  refine .call ?_
  show Ends (fun call => computeField call x.1 x.2 false) s _
  unfold computeField
  refine .next (runOn_declared hi hfield) ?_
  simp only [hcomputed, Bool.false_eq_true, if_false]
  exact .next hclaim (.throw ⟨rfl, rfl⟩)

/-- A field that is finished is not computed again. -/
theorem compute_finished_ends (hi : s.instance? x.1 = some i)
    (hfield : i.kind.info.field? x.2 = some spec) (hcomputed : spec.isStatic = false)
    (hfinished : s.view.Finished x) :
    Ends (fun call => call (.compute x.1 x.2)) s fun a t => a = .ok () ∧ t = s := by
  obtain ⟨e, hslot, hsettled⟩ := hfinished
  exact compute_stored_ends hi hfield hcomputed hslot hsettled

/-- While a node is claimed other nodes are finished; what is made of the claim in the end
finishes the node, or gives it up. -/
theorem advances_of_concluded {previous : Option Entry} {r : Outcome} {a : Except Error Unit}
    {u : Session} (hopen : s.view.Open x) (hprevious : previous.map Slot.stored = s.view.slots x)
    (hadvances : (s.view.put x (some (.computing previous))).Advances t.view)
    (h : Concluded t.view x (previous.map .stored) r a u.view) :
    s.view.Advances u.view ∧ (a = .ok () → u.view.Finished x) := by
  cases h with
  | inl hreleased =>
    obtain ⟨-, ha, hu⟩ := hreleased
    rw [hu, hprevious, ha]
    exact ⟨.of_claimed hopen hadvances (Or.inl rfl), fun hok => by cases hok⟩
  | inr hstored =>
    obtain ⟨hr, -, now, hu⟩ := hstored
    have hentry : (Entry.ofOutcome r now).isSettled = true :=
      Entry.isSettled_of_result? (Entry.result?_ofOutcome r now)
    rw [hu]
    exact ⟨.of_claimed hopen hadvances (Or.inr ⟨_, rfl, hentry⟩),
      fun _ => ⟨_, View.put_slots_self .., hentry⟩⟩

/-- What computing an open node comes to, given what its references come to: in the end
it is finished, or its claim was given up. -/
theorem compute_open_ends (hi : s.instance? x.1 = some i)
    (hfield : i.kind.info.field? x.2 = some spec) (hcomputed : spec.isStatic = false)
    (hopen : s.view.Open x) (hstanding : s.view.outline.Standing)
    {P : Gathered → Session → Prop}
    (hgather : Ends (fun call => gather call x.1 spec.refs) (s.claimed x) fun a t =>
      (s.claimed x).view.Advances t.view ∧ ∃ g, a = .ok g ∧ P g t) :
    Ends (fun call => call (.compute x.1 x.2)) s fun a u =>
      s.view.Advances u.view ∧ (a = .ok () → u.view.Finished x)
        ∧ ∃ g t, P g t ∧ ∀ e, g = .blocked e →
          a = .error e ∧ u.view = t.view.put x (s.view.slots x) := by
  obtain ⟨-, previous, hprevious, hview⟩ := view_claimed hi hopen
  have hm : s.view.outline.member? x.1 = some i.member := member?_of_instance hi
  refine .call ?_
  show Ends (fun call => computeField call x.1 x.2 false) s _
  unfold computeField
  refine .next (runOn_declared hi hfield) ?_
  simp only [hcomputed, Bool.false_eq_true, if_false]
  refine .next (runOn_claim_of_open hi hopen) (.bind hgather ?_ ?_)
  · rintro g t ⟨hadvances, g', hg, hP⟩
    obtain rfl : g = g' := Except.ok.inj hg
    rw [hview] at hadvances
    -- the claim is still held, whatever was settled meanwhile
    have hbusy : (s.view.put x (some (.computing previous))).Busy x :=
      ⟨previous, View.put_slots_self ..⟩
    have hslot : t.view.slots x = some (.computing previous) :=
      (hadvances.slots_of_busy hbusy).trans (View.put_slots_self ..)
    have hmt : t.view.outline.member? x.1 = some i.member := hadvances.outline ▸ hm
    cases g with
    | values vs =>
      refine (runLogic_ends hmt (hstanding.alone hm) hslot vs).mono ?_
      rintro a u ⟨number, hend⟩
      obtain ⟨hu, hfinished⟩ := advances_of_concluded hopen hprevious hadvances hend
      exact ⟨hu, hfinished, .values vs, t, hP, fun e he => by cases he⟩
    | failed e =>
      refine (conclude_ends hmt hslot (.error e)).mono ?_
      intro a u hend
      obtain ⟨hu, hfinished⟩ := advances_of_concluded hopen hprevious hadvances hend
      exact ⟨hu, hfinished, .failed e, t, hP, fun e he => by cases he⟩
    | blocked e =>
      refine (abandon_ends hmt hslot e).mono ?_
      rintro a u ⟨rfl, hu⟩
      rw [hprevious] at hu
      have hback : s.view.Advances u.view := hu ▸ .of_claimed hopen hadvances (Or.inl rfl)
      refine ⟨hback, (fun hok => by cases hok), .blocked e, t, hP, ?_⟩
      intro e' he
      cases he
      exact ⟨rfl, hu⟩
  · rintro e t ⟨-, g, hg, -⟩
    cases hg

/-! ## §4. Computing. -/

/-- Taking one member away makes a list shorter. -/
theorem length_erase_lt {α : Type} [BEq α] [LawfulBEq α] {xs : List α} {a : α} (h : a ∈ xs) :
    (xs.erase a).length < xs.length := by
  have hpos := List.length_pos_of_mem h
  rw [List.length_erase_of_mem h]
  omega

/-- A node is computed, on any session of the outline in which a given list still has all
declared nodes that are not busy. -/
def Advancing (o : Outline) (free : List Node) (x : Node) : Prop :=
  ∀ s : Session, s.view.outline = o →
    (∀ y spec, o.spec? y = some spec → ¬ s.view.Busy y → y ∈ free) →
    Ends (fun call => call (.compute x.1 x.2)) s fun a t =>
      s.view.Advances t.view ∧ (a = .ok () → ∀ spec, o.spec? x = some spec →
        spec.isStatic = true ∨ t.view.Finished x)

/-- A field is computed, and then read as it is. -/
theorem read_advances {free : List Node} (hx : s.view.outline.member? x.1 = some m)
    (hfree : ∀ y spec, s.view.outline.spec? y = some spec → ¬ s.view.Busy y → y ∈ free)
    (hcompute : Advancing s.view.outline free x) :
    Ends (fun call => do call (.compute x.1 x.2); call (.field x.1 x.2)) s fun _ t =>
      s.view.Advances t.view := by
  refine .bind (hcompute s rfl hfree) ?_ fun e t ht => ht.1
  rintro _ t ⟨hadvances, hfinished⟩
  have hxt : t.view.outline.member? x.1 = some m := hadvances.outline ▸ hx
  refine (field_idle_ends hxt ?_).mono ?_
  · intro spec hspec
    exact hfinished rfl spec ((Outline.spec?_of_member hx).trans hspec)
  · rintro a u rfl
    exact hadvances

/-- References are gathered, given that each of them is computed. -/
theorem gather_advances {v : View} {free : List Node} (ho : o.Standing) (hv : v.outline = o)
    (hm : o.member? n = some m)
    (hfree : ∀ y spec, o.spec? y = some spec → ¬ v.Busy y → y ∈ free)
    (ih : ∀ y m', o.member? y.1 = some m' → Advancing o free y) :
    ∀ (refs : List String) (s : Session), v.Advances s.view →
      Ends (fun call => gather call n refs) s fun a t => v.Advances t.view ∧ ∃ g, a = .ok g := by
  intro refs
  induction refs with
  | nil => exact fun s hs => .pure ⟨hs, _, rfl⟩
  | cons reference refs ihrefs =>
    intro s hs
    have hso : s.view.outline = o := hs.outline.trans hv
    obtain ⟨i, hi, rfl⟩ := instance_of_member? (hso ▸ hm)
    have haim := runOn_aim hi reference
    unfold gather
    refine .next ((runOn_attempt _ s).trans (by rw [haim]; rfl)) ?_
    cases htarget : s.view.outline.aim n i.member reference with
    | error e => exact .pure ⟨hs, _, rfl⟩
    | ok target =>
      obtain ⟨_ | source, field, address⟩ := target
      · exact .pure ⟨hs, _, rfl⟩
      · obtain ⟨m', hm'⟩ := ho.member_of_aim hm (hso ▸ htarget)
        -- what was busy before is busy still, so the list has all that is not
        have hfrees : ∀ y spec, o.spec? y = some spec → ¬ s.view.Busy y → y ∈ free :=
          fun y spec hy hidle => hfree y spec hy fun hbusy => hidle (hs.busy hbusy)
        have hread := read_advances (x := (source, field)) (hso ▸ hm') (hso ▸ hfrees)
          (hso ▸ ih (source, field) m' hm')
        refine .attempt_bind hread fun r t hst => ?_
        have ht := hs.trans hst
        cases r with
        | ok value =>
          refine .bind (ihrefs t ht) ?_ ?_
          · rintro g u ⟨hu, -⟩
            cases g <;> exact .pure ⟨hu, _, rfl⟩
          · rintro e u ⟨-, g, hg⟩
            cases hg
        | error e => cases e <;> exact .pure ⟨ht, _, rfl⟩

/-- A claim takes the node off the list. -/
theorem mem_free_of_claimed {free : List Node} (hi : s.instance? x.1 = some i)
    (hopen : s.view.Open x)
    (hfree : ∀ y spec, s.view.outline.spec? y = some spec → ¬ s.view.Busy y → y ∈ free) :
    ∀ y spec, s.view.outline.spec? y = some spec → ¬ (s.claimed x).view.Busy y →
      y ∈ free.erase x := by
  obtain ⟨-, previous, -, hview⟩ := view_claimed hi hopen
  intro y spec hy hidle
  rw [hview] at hidle
  have hne : y ≠ x := by
    rintro rfl
    exact hidle ⟨previous, View.put_slots_self ..⟩
  refine (List.mem_erase_of_ne hne).2 (hfree y spec hy fun hbusy => hidle ?_)
  exact hbusy.congr (View.put_slots_ne _ hne _)

/-- **Computing ends**, since the list of the nodes that are not busy becomes shorter
with every claim. -/
theorem compute_advances (ho : o.Standing) (free : List Node) :
    ∀ (x : Node) (m : Member), o.member? x.1 = some m → Advancing o free x := by
  induction hk : free.length using Nat.strongRecOn generalizing free with
  | ind k ih =>
    subst hk
    rintro x m hm s rfl hfree
    obtain ⟨i, hi, rfl⟩ := instance_of_member? hm
    cases hfield : i.kind.info.field? x.2 with
    | none =>
      refine (compute_undeclared_ends hi hfield).mono ?_
      rintro a t ⟨rfl, rfl⟩
      exact ⟨.refl _, fun hok => by cases hok⟩
    | some spec =>
      have hspec : s.view.outline.spec? x = some spec := (Outline.spec?_of_member hm).trans hfield
      cases hcomputed : spec.isStatic with
      | true =>
        refine (compute_static_ends hi hfield hcomputed).mono ?_
        rintro a t ⟨-, rfl⟩
        refine ⟨.refl _, fun _ spec' hspec' => Or.inl ?_⟩
        obtain rfl : spec = spec' := Option.some.inj (hspec.symm.trans hspec')
        exact hcomputed
      | false =>
        by_cases hbusy : s.view.Busy x
        · refine (compute_busy_ends hi hfield hcomputed hbusy).mono ?_
          rintro a t ⟨rfl, rfl⟩
          exact ⟨.refl _, fun hok => by cases hok⟩
        · by_cases hfinished : s.view.Finished x
          · refine (compute_finished_ends hi hfield hcomputed hfinished).mono ?_
            rintro a t ⟨-, rfl⟩
            exact ⟨.refl _, fun _ _ _ => Or.inr hfinished⟩
          · -- the claim takes the node off the list
            have hopen : s.view.Open x := ⟨hbusy, hfinished⟩
            obtain ⟨-, previous, -, hview⟩ := view_claimed hi hopen
            have hless := length_erase_lt (hfree x spec hspec hbusy)
            have hgather := gather_advances (v := (s.claimed x).view) (n := x.1) ho
              (by rw [hview]; rfl) hm (mem_free_of_claimed hi hopen hfree) (ih _ hless _ rfl)
              spec.refs (s.claimed x) (.refl _)
            have hend := compute_open_ends (P := fun _ _ => True) hi hfield hcomputed hopen ho
              (hgather.mono fun a t ht => ⟨ht.1, ht.2.imp fun g hg => ⟨hg, trivial⟩⟩)
            exact hend.mono fun a u hu => ⟨hu.1, fun hok _ _ => Or.inr (hu.2.1 hok)⟩

/-- At the start all declared nodes are on the list. -/
theorem compute_advances_all (ho : s.view.outline.Standing)
    (hm : s.view.outline.member? x.1 = some m) :
    Ends (fun call => call (.compute x.1 x.2)) s fun _ t => s.view.Advances t.view :=
  (compute_advances ho s.view.outline.nodes x m hm s rfl fun _ _ hy _ =>
    Outline.mem_nodes hy).mono fun _ _ h => h.1

end Session

end LazyFields
