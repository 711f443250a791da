/-
  LazyFields.Proofs.Session.Cyclic
  ────────────────────────────────
  **REGISTERING ENDS, AND CYCLES ARE NOT READY.**

  Registering goes on to a reference only if it was the first one to watch it.
  So the addresses that nobody watches become fewer, and it ends on every graph
  of references, as computing does.

  A computation that comes to a field which it is computing already gets no
  value for it.  `Calls` is the way from the first field to that one; every field
  on it was open when the computation started (`Calls.open`), and its claim is
  given up on the way back (`Calls.unwinds`).
-/
import LazyFields.Proofs.Session.Claims

namespace LazyFields.Session

open LazyFields.Action

variable {s t : Session} {o : Outline} {x y : Node} {n : Nat} {i : Instance} {m : Member}
  {spec : FieldSpec}

/-! ## §1. Registering. -/

/-- A registration of a node, on any session of the outline in which a given list still has
all addresses of references that nobody watches. -/
def Registering (o : Outline) (fresh : List String) (x : Node) : Prop :=
  ∀ s : Session, s.view.outline = o →
    (∀ address ∈ o.addresses, ¬ s.view.Watched address → address ∈ fresh) →
    Ends (fun call => call (.register x.1 x.2)) s fun _ t => s.view.Extends t.view

/-- A field watches one of its references, given that what nobody watched is
registered. -/
theorem follow_extends (ho : o.Standing) (hs : s.view.outline = o) {fresh : List String}
    (hfresh : ∀ address ∈ o.addresses, ¬ s.view.Watched address → address ∈ fresh)
    (hi : s.instance? n = some i) {field : String} {target : Target}
    (hasked : target.address ∈ o.addresses)
    (hsource : ∀ source, target.inst = some source → ∃ m, o.member? source = some m)
    (ih : ∀ less : List String, less.length < fresh.length → ∀ y m,
      o.member? y.1 = some m → Registering o less y) :
    Ends (fun call => follow call target n field) s fun _ t => s.view.Extends t.view := by
  let t : Session := { s with
    watches := (s.watches.watch target.address (i.fieldAddress field) (.recompute n field)).2 }
  have hextends : s.view.Extends t.view := View.extends_watch
  have hwatched : t.view.Watched target.address :=
    ⟨i.fieldAddress field, WatchGraph.exists_get?_callbacks_watch⟩
  unfold follow
  refine .next (runOn_getInstance hi) (.next runOn_get (.next (runOn_set t) ?_))
  split
  · exact .pure hextends
  · next hinitial =>
    -- nobody watched the address, so it was on the list and is not any more
    have hunwatched : ¬ s.view.Watched target.address := by
      rw [View.not_watched_iff]
      cases hempty : (s.watches.callbacks target.address).isEmpty with
      | true => exact hempty
      | false => exact absurd (by simp [hempty]) hinitial
    have hless := length_erase_lt (hfresh _ hasked hunwatched)
    have hfresh' : ∀ address ∈ o.addresses, ¬ t.view.Watched address →
        address ∈ fresh.erase target.address := by
      intro address haddress hun
      have hne : address ≠ target.address := by
        rintro rfl
        exact hun hwatched
      refine (List.mem_erase_of_ne hne).2 (hfresh address haddress fun hold => hun ?_)
      exact hextends.watched hold
    obtain ⟨inst, field', address⟩ := target
    cases inst with
    | none => exact .pure hextends
    | some source =>
      obtain ⟨m, hm⟩ := hsource source rfl
      have hregister := ih _ hless (source, field') m hm t hs hfresh'
      refine .bind hregister ?_ fun e u hu => hextends.trans hu
      intro _ u hu
      have huo : u.view.outline = o := hu.outline.trans hs
      have hcompute := compute_advances_all (x := (source, field')) (huo ▸ ho) (huo ▸ hm)
      exact .ignore (hcompute.mono fun _ w hw => hextends.trans (hu.trans hw.extends))

/-- **Registering ends**, since the list of the addresses that nobody watches becomes
shorter with every field that is the first to watch. -/
theorem register_extends (ho : o.Standing) (fresh : List String) :
    ∀ (x : Node) (m : Member), o.member? x.1 = some m → Registering o fresh x := by
  induction hk : fresh.length using Nat.strongRecOn generalizing fresh with
  | ind k ih =>
    subst hk
    rintro x m hm s rfl hfresh
    obtain ⟨i, hi, rfl⟩ := instance_of_member? hm
    refine .call ?_
    show Ends (fun call => register call x.1 x.2) s _
    unfold register
    cases hfield : i.kind.info.field? x.2 with
    | none => exact .stop (runOn_declared_of_none hi hfield) (.refl _)
    | some spec =>
      refine .next (runOn_declared hi hfield) ?_
      cases spec.refs.isEmpty with
      | true => exact .pure (.refl _)
      | false =>
        simp only [Bool.false_eq_true, if_false]
        cases hlive : s.live with
        | false =>
          -- nothing is registered once the runtime is gone
          exact .stop (runOn_requireLive_of_ended hi hlive) (.refl _)
        | true =>
          refine .next (runOn_requireLive hi hlive) ?_
          refine Ends.forM_keeps (I := fun t => s.view.Extends t.view) ?_ s (.refl _)
          intro reference href t ht
          obtain ⟨j, hj, hji⟩ := instance_of_member? (ht.outline ▸ hm)
          have haim := runOn_aim hj reference
          rw [ht.outline, hji] at haim
          cases htarget : s.view.outline.aim x.1 i.member reference with
          | error e =>
            rw [htarget] at haim
            exact .stop haim ht
          | ok target =>
            rw [htarget] at haim
            refine .next haim ?_
            -- watches are only added, so the list still has what nobody watches now
            have hunwatched : ∀ address ∈ s.view.outline.addresses,
                ¬ t.view.Watched address → address ∈ fresh :=
              fun address haddress hun => hfresh address haddress fun hold => hun (ht.watched hold)
            have hsource : ∀ source, target.inst = some source →
                ∃ m, s.view.outline.member? source = some m := by
              intro source hsource
              obtain ⟨inst, field', address⟩ := target
              obtain rfl : inst = some source := hsource
              exact ho.member_of_aim hm htarget
            have hfollow : Ends (fun call => follow call target x.1 x.2) t
                fun _ u => t.view.Extends u.view :=
              follow_extends ho ht.outline hunwatched hj
                (Outline.mem_addresses hm hfield href htarget) hsource
                fun less hless y m' hm' => ih less.length hless less rfl y m' hm'
            exact hfollow.mono fun _ u hu => ht.trans hu

/-! ## §2. A computation that reaches itself. -/

/-- What is made of what is gathered before and after. -/
def Gathered.andThen (rest : Action Gathered) : Gathered → Action Gathered
  | .values vs => do
      match ← rest with
      | .values ws => pure (.values (vs ++ ws))
      | other => pure other
  | other => pure other

theorem gather_append (call : Performer) (n : Nat) (done refs : List String) :
    gather call n (done ++ refs) = gather call n done >>= Gathered.andThen (gather call n refs) := by
  induction done with
  | nil =>
    rw [List.nil_append, gather, pure_bind]
    refine (bind_pure (gather call n refs)).symm.trans (bind_congr fun g => ?_)
    cases g <;> rfl
  | cons reference done ih =>
    rw [List.cons_append, gather, gather, bind_assoc]
    refine bind_congr fun target => ?_
    obtain e | ⟨_ | source, field, address⟩ := target
    · rw [pure_bind]; rfl
    · rw [pure_bind]; rfl
    · simp only [bind_assoc]
      refine bind_congr fun r => ?_
      -- after an error the references that follow are not asked for on either side
      cases r with
      | error e => cases e <;> (simp only [pure_bind]; rfl)
      | ok v =>
        simp only [ih, bind_assoc]
        refine bind_congr fun g => ?_
        cases g with
        | values vs =>
          simp only [pure_bind, Gathered.andThen, bind_assoc]
          refine bind_congr fun g' => ?_
          cases g' <;> simp
        | blocked e => simp only [pure_bind, Gathered.andThen]
        | failed e => simp only [pure_bind, Gathered.andThen]

/-- Computing `x` on the session `s` claims it and gets values for its first references;
then, on the session `t`, it asks for `y`. -/
def AsksFor (s : Session) (x : Node) (t : Session) (y : Node) : Prop :=
  ∃ i spec done reference rest values fuel address,
    s.instance? x.1 = some i ∧ i.kind.info.field? x.2 = some spec ∧ spec.isStatic = false
      ∧ (i.cache.claim x.2 false).1 = .acquired
      ∧ spec.refs = done ++ reference :: rest
      ∧ (gather (perform fuel) x.1 done).runOn (s.claimed x) = some (.ok (.values values), t)
      ∧ (targetOf x.1 reference).runOn t = some (.ok ⟨some y.1, y.2, address⟩, t)

/-- Computing `x` on the session `s` asks for the nodes of a list, each while the one
before it is being computed, and from the last of them for `z`. -/
inductive Calls : Session → Node → List Node → Node → Prop where
  | last {s t : Session} {x z : Node} : AsksFor s x t z → Calls s x [] z
  | step {s t : Session} {x y z : Node} {ys : List Node} :
      AsksFor s x t y → Calls t y ys z → Calls s x (y :: ys) z

/-- A computed field that is being computed. -/
def Held (v : View) (x : Node) : Prop :=
  v.Busy x ∧ ∃ spec, v.outline.spec? x = some spec ∧ spec.isStatic = false

theorem held_of_advances {v w : View} (h : v.Advances w) (hx : Held v x) : Held w x := by
  obtain ⟨hbusy, spec, hspec, hcomputed⟩ := hx
  exact ⟨h.busy hbusy, spec, h.outline ▸ hspec, hcomputed⟩

theorem compute_held_ends (hx : Held s.view x) :
    Ends (fun call => call (.compute x.1 x.2)) s fun a t => a = .error .notReady ∧ t = s := by
  obtain ⟨hbusy, spec, hspec, hcomputed⟩ := hx
  obtain ⟨m, hm, hfield⟩ := Option.bind_eq_some_iff.1 hspec
  obtain ⟨i, hi, rfl⟩ := instance_of_member? hm
  exact compute_busy_ends hi hfield hcomputed hbusy

/-- When something is asked for, the one that asks is claimed, and all other nodes that have
changed are finished. -/
theorem AsksFor.advances (h : AsksFor s x t y) (ho : s.view.outline.Standing) :
    s.view.Open x ∧ Held (s.claimed x).view x ∧ (s.claimed x).view.Advances t.view
      ∧ ∀ z, z ≠ x → (s.claimed x).view.slots z = s.view.slots z := by
  obtain ⟨i, spec, done, reference, rest, values, fuel, address, hi, hfield, hcomputed, hacquired,
    -, hrun, -⟩ := h
  have hopen := open_of_acquired hi hacquired
  obtain ⟨-, previous, -, hview⟩ := view_claimed hi hopen
  have hm : s.view.outline.member? x.1 = some i.member := member?_of_instance hi
  refine ⟨hopen, ?_, ?_, ?_⟩
  · rw [hview]
    refine ⟨⟨previous, View.put_slots_self ..⟩, spec, ?_, hcomputed⟩
    rw [View.put_outline]
    exact (Outline.spec?_of_member hm).trans hfield
  · have hfree : ∀ y spec, s.view.outline.spec? y = some spec →
        ¬ (s.claimed x).view.Busy y → y ∈ s.view.outline.nodes :=
      fun _ _ hy _ => Outline.mem_nodes hy
    have hgather := gather_advances (n := x.1) ho (by rw [hview]; rfl) hm hfree
      (compute_advances ho _) done (s.claimed x) (.refl _)
    exact (hgather.of_perform (fun hcall => gather_refines hcall _ _) hrun).1
  · intro z hz
    rw [hview]
    exact View.put_slots_ne _ hz _

theorem AsksFor.outline (h : AsksFor s x t y) (ho : s.view.outline.Standing) :
    t.view.outline = s.view.outline := by
  obtain ⟨-, -, hadvances, -⟩ := h.advances ho
  obtain ⟨i, -, -, -, -, -, -, -, hi, -, -, hacquired, -⟩ := h
  obtain ⟨-, previous, -, hview⟩ := view_claimed hi (open_of_acquired hi hacquired)
  rw [hadvances.outline, hview]
  rfl

/-- A reference that is not ready blocks what comes after it. -/
theorem gather_blocked_ends {reference address : String} {rest : List String}
    {R : Session → Prop}
    (haim : (targetOf n reference).runOn t = some (.ok ⟨some y.1, y.2, address⟩, t))
    (h : Ends (fun call => call (.compute y.1 y.2)) t fun a u => a = .error .notReady ∧ R u) :
    Ends (fun call => gather call n (reference :: rest)) t fun a u =>
      a = .ok (.blocked .notReady) ∧ R u := by
  unfold gather
  refine .next ((runOn_attempt _ t).trans (by rw [haim]; rfl)) ?_
  have hread : Ends (fun call => do call (.compute y.1 y.2); call (.field y.1 y.2)) t
      fun a u => a = .error .notReady ∧ R u := by
    refine .bind h ?_ ?_
    · rintro _ u ⟨ha, -⟩
      cases ha
    · rintro e u ⟨ha, hu⟩
      cases ha
      exact ⟨rfl, hu⟩
  refine .attempt_bind hread ?_
  rintro r u ⟨rfl, hu⟩
  exact .pure ⟨rfl, hu⟩

/-- What is asked for and not ready leaves the one that asked as it was. -/
theorem AsksFor.unwinds (h : AsksFor s x t y) (ho : s.view.outline.Standing) {R : Session → Prop}
    (hend : Ends (fun call => call (.compute y.1 y.2)) t fun a u =>
      a = .error .notReady ∧ t.view.Advances u.view ∧ R u) :
    Ends (fun call => call (.compute x.1 x.2)) s fun a w => a = .error .notReady
      ∧ s.view.Advances w.view ∧ ∃ u, R u ∧ w.view = u.view.put x (s.view.slots x) := by
  obtain ⟨hopen, -, hadvances, -⟩ := h.advances ho
  obtain ⟨i, spec, done, reference, rest, values, fuel, address, hi, hfield, hcomputed, -, hrefs,
    hrun, haim⟩ := h
  -- with more fuel the references before the one asked for are gathered as they were
  have hdone : Ends (fun call => gather call x.1 done) (s.claimed x) fun a u =>
      a = .ok (.values values) ∧ u = t :=
    ⟨_, t, ⟨fuel, fun more hmore =>
      gather_refines (perform_refines hmore) _ _ _ _ hrun⟩, rfl, rfl⟩
  have hgather : Ends (fun call => gather call x.1 spec.refs) (s.claimed x) fun a u =>
      (s.claimed x).view.Advances u.view ∧ ∃ g, a = .ok g ∧ g = .blocked .notReady ∧ R u := by
    rw [hrefs]
    simp only [gather_append]
    refine .bind_ok hdone ?_
    rintro u rfl
    refine .bind_ok (gather_blocked_ends haim hend) ?_
    rintro w ⟨hadvances', hw⟩
    exact .pure ⟨hadvances.trans hadvances', _, rfl, rfl, hw⟩
  refine (compute_open_ends hi hfield hcomputed hopen ho hgather).mono ?_
  rintro a w ⟨hw, -, g, u, ⟨hg, hu⟩, hblocked⟩
  obtain ⟨ha, hview⟩ := hblocked .notReady hg
  exact ⟨ha, hw, u, hu, hview⟩

/-- All nodes that are called for are open when the first of them is computed. -/
theorem Calls.open {xs : List Node} {z : Node} (h : Calls s x xs z)
    (ho : s.view.outline.Standing) : ∀ y ∈ x :: xs, s.view.Open y := by
  induction h with
  | last hask =>
    intro y hy
    rw [List.mem_singleton.1 hy]
    exact (hask.advances ho).1
  | @step s t x y z ys hask _ ih =>
    obtain ⟨hopen, hheld, hadvances, hothers⟩ := hask.advances ho
    rw [List.forall_mem_cons]
    refine ⟨hopen, fun y' hy' => ?_⟩
    -- what is open at the second node was not touched before
    have hlater := ih (hask.outline ho ▸ ho) y' hy'
    have hclaimed := hlater.congr (hadvances.slots_of_open hlater).symm
    have hne : y' ≠ x := by
      rintro rfl
      exact hclaimed.1 hheld.1
    exact hclaimed.congr (hothers y' hne).symm

/-- What was being computed, and what asks, is being computed when something is asked
for. -/
theorem AsksFor.held {z : Node} (h : AsksFor s x t y) (ho : s.view.outline.Standing)
    (hz : z = x ∨ Held s.view z) : Held t.view z := by
  obtain ⟨hopen, hheld, hadvances, hothers⟩ := h.advances ho
  cases hz with
  | inl heq =>
    rw [heq]
    exact held_of_advances hadvances hheld
  | inr hbefore =>
    obtain ⟨hbusy, spec, hspec, hcomputed⟩ := hbefore
    have hne : z ≠ x := by
      rintro rfl
      exact hopen.1 hbusy
    exact ⟨hadvances.busy (hbusy.congr (hothers z hne)), spec, h.outline ho ▸ hspec, hcomputed⟩

/-- **A computation that comes back to itself is not ready**, and gives up all its
claims.  By induction on the calls, from the last claim to the first. -/
theorem Calls.unwinds {xs : List Node} {z : Node} (h : Calls s x xs z)
    (ho : s.view.outline.Standing) (hz : z ∈ x :: xs ∨ Held s.view z) :
    Ends (fun call => call (.compute x.1 x.2)) s fun a w => a = .error .notReady
      ∧ s.view.Advances w.view ∧ ∀ y ∈ x :: xs, w.view.slots y = s.view.slots y := by
  induction h with
  | @last s t x z hask =>
    -- what is asked for is claimed by one of the calls, so it is busy
    have hheld := hask.held ho (hz.imp_left List.mem_singleton.1)
    have hend := hask.unwinds ho (R := fun _ => True)
      ((compute_held_ends hheld).mono fun a u hu => ⟨hu.1, hu.2 ▸ .refl _, trivial⟩)
    refine hend.mono ?_
    rintro a w ⟨ha, hw, u, -, hview⟩
    refine ⟨ha, hw, fun y hy => ?_⟩
    rw [List.mem_singleton.1 hy, hview]
    exact View.put_slots_self ..
  | @step s t x y z ys hask hcalls ih =>
    have hto := hask.outline ho
    obtain ⟨hopen, hheld, hadvances, hothers⟩ := hask.advances ho
    -- for the calls that follow, the claim of `x` is one that was there before
    have hz' : z ∈ y :: ys ∨ Held t.view z := by
      cases hz with
      | inl hmem =>
        cases List.mem_cons.1 hmem with
        | inl heq => exact Or.inr (hask.held ho (Or.inl heq))
        | inr hlater => exact Or.inl hlater
      | inr hbefore => exact Or.inr (hask.held ho (Or.inr hbefore))
    refine (hask.unwinds ho (ih (hto ▸ ho) hz')).mono ?_
    rintro a w ⟨ha, hw, u, hu, hview⟩
    refine ⟨ha, hw, List.forall_mem_cons.2 ⟨?_, fun y' hy' => ?_⟩⟩
    · rw [hview]
      exact View.put_slots_self ..
    · -- a later node was open all the time, and its own call has left it as it was
      have hlater := hcalls.open (hto ▸ ho) y' hy'
      have hclaimed := hadvances.slots_of_open hlater
      have hne : y' ≠ x := by
        rintro rfl
        exact (hlater.congr hclaimed.symm).1 hheld.1
      calc w.view.slots y' = u.view.slots y' := by rw [hview, View.put_slots_ne _ hne]
        _ = t.view.slots y' := hu y' hy'
        _ = (s.claimed x).view.slots y' := hclaimed
        _ = s.view.slots y' := hothers y' hne

/-- **Registering and computing end**, for every field of every instance, whatever the
references; and a computation that asks for a field that it is computing is not ready
and leaves all fields that it had claimed on the way as they were. -/
theorem register_and_compute_end (hs : s.view.outline.Standing) (hi : s.instance? n = some i)
    (field : String) :
    (∃ fuel a t, run fuel (.register n field) s = some (a, t)) ∧
      (∃ fuel a t, run fuel (.compute n field) s = some (a, t)) ∧
      ∀ xs z, Calls s (n, field) xs z → z ∈ (n, field) :: xs →
        ∃ fuel t, run fuel (.compute n field) s = some (.error .notReady, t) ∧
          ∀ y ∈ (n, field) :: xs, t.slot? y = s.slot? y := by
  have hm : s.view.outline.member? n = some i.member := member?_of_instance hi
  refine ⟨?_, ?_, fun xs z hcalls hz => ?_⟩
  · have hregister := register_extends hs s.view.outline.addresses (n, field) i.member hm s rfl
      fun address haddress _ => haddress
    obtain ⟨fuel, a, t, hrun, -⟩ := hregister.run
    exact ⟨fuel, a, t, hrun⟩
  · obtain ⟨fuel, a, t, hrun, -⟩ := (compute_advances_all (x := (n, field)) hs hm).run
    exact ⟨fuel, a, t, hrun⟩
  · obtain ⟨fuel, a, t, hrun, rfl, -, hslots⟩ := (hcalls.unwinds hs (Or.inl hz)).run
    exact ⟨fuel, t, hrun, hslots⟩

/-! ## §3. An example. -/

/-- A computed field that holds a text. -/
def textField (name : String) (refs : List String) : FieldSpec :=
  ⟨name, .string, false, refs, "", "", false⟩

/-- Of its fields `a` is computed from `c` and `b`, and `b` from `a`; only `c` has logic. -/
def knot : Kind where
  info := ⟨"r", "r", "", "", none, false, false, "", Table.ofList
    [("a", textField "a" ["c", "b"]), ("b", textField "b" ["a"]), ("c", textField "c" [])], none⟩
  computes := Table.ofList [("c", fun _ _ _ => .done (.ok (.string "v")))]
  init := none
  idLogic := none

/-- A session with one instance of the kind. -/
def knotted : Session where
  catalog := ⟨Table.ofList [("r", knot)], ∅⟩
  config := ⟨1, 1, false, fun _ => none⟩
  now := 0
  live := true
  instances := [⟨knot, "", ∅, false⟩]
  published := Table.ofList [(instanceAddress "r" "", 0)]
  watches := ∅
  journal := []
  guards := ∅

theorem standing_knotted : knotted.view.outline.Standing where
  published {address n} h := by
    have hmem : (address, n) ∈ [(instanceAddress "r" "", 0)] := Table.get?_eq_some_iff_mem.1 h
    obtain ⟨-, rfl⟩ := Prod.mk.inj (List.mem_singleton.1 hmem)
    exact ⟨⟨knot, "", false⟩, rfl⟩
  alone {n m field logic} hm hlogic := by
    have hmember : m ∈ [(⟨knot, "", false⟩ : Member)] := List.mem_of_getElem? hm
    obtain rfl := List.mem_singleton.1 hmember
    have hmem := Table.get?_eq_some_iff_mem.1 hlogic
    obtain ⟨-, rfl⟩ := Prod.mk.inj (List.mem_singleton.1 hmem)
    exact fun _ _ _ => ⟨_, rfl⟩

/-- The session in which `a` asks for `b`. -/
def askedForB : Session :=
  (((gather (perform 5) 0 ["c"]).runOn (knotted.claimed (0, "a"))).map Prod.snd).getD knotted

theorem calls_knotted : Calls knotted (0, "a") [(0, "b")] (0, "a") := by
  have hfirst : AsksFor knotted (0, "a") askedForB (0, "b") :=
    ⟨⟨knot, "", ∅, false⟩, textField "a" ["c", "b"], ["c"], "b", [], [.string "v"], 5,
      fieldAddress "r" "" "b", rfl, rfl, rfl, rfl, rfl, rfl, rfl⟩
  have hsecond : AsksFor askedForB (0, "b") (askedForB.claimed (0, "b")) (0, "a") :=
    ⟨_, textField "b" ["a"], [], "a", [], [], 5, fieldAddress "r" "" "a", rfl, rfl, rfl, rfl, rfl,
      rfl, rfl⟩
  exact .step hfirst (.last hsecond)

theorem knotted_unwinds :
    knotted.view.outline.Standing ∧ Calls knotted (0, "a") [(0, "b")] (0, "a") ∧
      (∃ fuel a t, run fuel (.register 0 "a") knotted = some (a, t)) ∧
      ∃ fuel t, run fuel (.compute 0 "a") knotted = some (.error .notReady, t) ∧
        ∀ y ∈ [(0, "a"), (0, "b")], t.slot? y = knotted.slot? y := by
  obtain ⟨hregister, -, hback⟩ := register_and_compute_end standing_knotted
    (show knotted.instance? 0 = some ⟨knot, "", ∅, false⟩ from rfl) "a"
  exact ⟨standing_knotted, calls_knotted, hregister,
    hback _ _ calls_knotted List.mem_cons_self⟩

end LazyFields.Session
