/-
  LazyFields.Proofs.Session.Answer
  ────────────────────────────────
  **WHAT A FIELD ANSWERS, WHATEVER IS STORED.**

  Caches hold anything here: values of the wrong type, entries that are neither
  valid nor failed, the signal as a failure, claims that owners hold.  Whoever
  watches what does not matter either.  The outcome of resolving a field is
  still determined (`View.answer`): a field that is being computed is not ready,
  one that is finished has its entry, and any other is evaluated from the
  answers of its references.

  Computing finishes open fields with their answers, so that it changes no
  answer (`Answered.answer_eq`):

    · `compute_answers` — by induction on the rank
    · `register_answers` — registering computes some fields on the way
    · `resolve_answers` — resolving a field gives its answer
-/
import LazyFields.Proofs.Session.Claims

namespace LazyFields

/-! ## §1. Answers. -/

/-- The field is declared as static. -/
def Outline.isStatic (o : Outline) (x : Node) : Bool := (o.spec? x).any FieldSpec.isStatic

/-- Whether a field is static is said where it is declared. -/
theorem Outline.Declares.isStatic_eq {o : Outline} {x : Node} {m : Member} {spec : FieldSpec}
    (h : o.Declares x m spec) : o.isStatic x = spec.isStatic := by
  simp [isStatic, spec?, h.member, h.field]

namespace View

variable {u v w : View} {x y : Node} {m : Member} {spec : FieldSpec} {r : Outcome}

/-- What is known of a field without computing it: a computed field that is
claimed is not ready. -/
def known (v : View) (x : Node) : Option Outcome :=
  match v.slots x with
  | some (.computing _) => if v.outline.isStatic x then v.result? x else some (.error .notReady)
  | _ => v.result? x

/-- **The outcome of resolving a field.** -/
def answer (v : View) (x : Node) : Outcome := v.outline.evaluate v.known x

/-- Only outline and slot count. -/
theorem known_congr (ho : w.outline = v.outline) (hslot : w.slots x = v.slots x) :
    w.known x = v.known x := by
  simp only [known, hslot, ho, result?_congr hslot]

/-- What is known of a static field is its value. -/
theorem known_of_static (hx : v.outline.Declares x m spec) (hstatic : spec.isStatic = true) :
    v.known x = v.result? x := by
  have hs : v.outline.isStatic x = true := hx.isStatic_eq.trans hstatic
  unfold known
  rw [hs]
  split <;> rfl

/-- A field that is being computed is known not to be ready. -/
theorem known_of_busy (hx : v.outline.Declares x m spec) (hcomputed : spec.isStatic = false)
    (h : v.Busy x) : v.known x = some (.error .notReady) := by
  obtain ⟨previous, hslot⟩ := h
  have hs : v.outline.isStatic x = false := hx.isStatic_eq.trans hcomputed
  simp [known, hslot, hs]

/-- Of any other field the result is known, if there is one. -/
theorem known_of_not_busy (h : ¬ v.Busy x) : v.known x = v.result? x := by
  unfold known
  split
  · next previous hslot => exact absurd ⟨previous, hslot⟩ h
  · rfl

/-- Of a finished field the result is known. -/
theorem Finished.known_eq (h : v.Finished x) : v.known x = v.result? x := by
  refine known_of_not_busy ?_
  rintro ⟨previous, hbusy⟩
  obtain ⟨e, he, -⟩ := h
  simp [hbusy] at he

/-- Nothing is known of an open field. -/
theorem Open.known_eq (h : v.Open x) : v.known x = none := by
  rw [known_of_not_busy h.1]
  cases hr : v.result? x with
  | none => rfl
  | some r =>
    cases hslot : v.slots x with
    | none => simp [result?, hslot] at hr
    | some sl =>
      cases sl with
      | computing previous => exact absurd ⟨previous, hslot⟩ h.1
      | stored e =>
        rw [result?_of_stored hslot] at hr
        exact absurd ⟨e, hslot, Entry.isSettled_of_result? hr⟩ h.2

/-- The answer of a field is what is known, or else what its logic makes of the
answers of its references. -/
theorem answer_eq (ho : v.outline.Upright) (hx : v.outline.Shows x m spec) :
    v.answer x = (v.known x).getD (v.outline.valueOf v.answer x) := ho.evaluate_eq _ hx

/-- What is known of a field is its answer. -/
theorem answer_of_known (ho : v.outline.Upright) (hx : v.outline.Shows x m spec)
    (h : v.known x = some r) : v.answer x = r := by
  rw [answer_eq ho hx, h, Option.getD_some]

/-- What happens from some rank on does not matter below it. -/
theorem answer_congr_below (ho : v.outline.Upright) {rank : String × String → Nat}
    (hrank : v.outline.catalog.Ranks rank) {k : Nat} (houtline : w.outline = v.outline)
    (hslots : ∀ y, v.outline.rank rank y < k → w.slots y = v.slots y)
    (hx : v.outline.Shows x m spec) (hk : v.outline.rank rank x < k) :
    w.answer x = v.answer x := by
  refine ho.induction_on_references
    (P := fun x => v.outline.rank rank x < k → w.answer x = v.answer x) ?_ hx hk
  intro x m spec hx ih hk
  have hhas : w.outline.Shows x m spec := houtline ▸ hx
  rw [answer_eq ho hx, answer_eq (houtline ▸ ho) hhas, known_congr houtline (hslots x hk), houtline]
  congr 1
  refine Outline.valueOf_congr hx.toDeclares fun reference href y hy => ?_
  have hlt := ho.rank_target hrank hx href hy
  exact ih reference href y hy (by omega)

/-! ## §2. What changes no answer. -/

/-- Some open computed fields were finished with their answers.  Watches may have
been added. -/
structure Answered (v w : View) : Prop where
  outline : w.outline = v.outline
  slots : ∀ x, w.slots x = v.slots x
    ∨ (∃ m spec, v.outline.Shows x m spec) ∧ v.Open x ∧ w.Settled x (v.answer x)

/-- The same, and only below a rank. -/
structure AnsweredTo (rank : String × String → Nat) (k : Nat) (v w : View) : Prop
    extends Answered v w where
  above : ∀ x, k ≤ v.outline.rank rank x → w.slots x = v.slots x

/-- A settled field is finished. -/
theorem Settled.finished (h : v.Settled x r) : v.Finished x := by
  obtain ⟨e, he, hr, -⟩ := h
  exact ⟨e, he, Entry.isSettled_of_result? hr⟩

/-- Of a settled field its result is known. -/
theorem Settled.known_eq (h : v.Settled x r) : v.known x = some r :=
  h.finished.known_eq.trans h.result?

namespace Answered

theorem refl (v : View) : v.Answered v := ⟨rfl, fun _ => .inl rfl⟩

/-- **Finishing fields with their answers changes no answer.** -/
theorem answer_eq (h : v.Answered w) (ho : v.outline.Upright) (hx : v.outline.Shows x m spec) :
    w.answer x = v.answer x := by
  have heq : ∀ y m' spec', w.outline.Shows y m' spec' →
      v.answer y = (w.known y).getD (w.outline.valueOf v.answer y) := by
    intro y m' spec' hy
    rw [h.outline] at hy ⊢
    rcases h.slots y with hslot | ⟨-, -, hset⟩
    · rw [known_congr h.outline hslot]
      exact View.answer_eq ho hy
    · rw [hset.known_eq, Option.getD_some]
  have hx : w.outline.Shows x m spec := h.outline ▸ hx
  have ho : w.outline.Upright := h.outline ▸ ho
  exact (ho.evaluate_unique heq hx).symm

/-- Answered, and answered again. -/
theorem trans (h : u.Answered v) (k : v.Answered w) (ho : u.outline.Upright) : u.Answered w where
  outline := k.outline.trans h.outline
  slots x := by
    rcases k.slots x with hk | ⟨⟨m, spec, hx⟩, hopen, hset⟩
    · rcases h.slots x with hh | ⟨hx, hopen, hset⟩
      · exact .inl (hk.trans hh)
      · exact .inr ⟨hx, hopen, hset.congr hk⟩
    · rcases h.slots x with hh | ⟨-, -, hset'⟩
      · have hx : u.outline.Shows x m spec := h.outline ▸ hx
        rw [h.answer_eq ho hx] at hset
        exact .inr ⟨⟨m, spec, hx⟩, hopen.congr hh.symm, hset⟩
      · exact absurd hset'.finished hopen.2

end Answered

namespace AnsweredTo

variable {rank : String × String → Nat} {k l : Nat}

theorem refl (rank : String × String → Nat) (k : Nat) (v : View) : v.AnsweredTo rank k v :=
  ⟨.refl v, fun _ _ => rfl⟩

/-- Answered up to a rank, so up to any larger one. -/
theorem mono (h : v.AnsweredTo rank k w) (hkl : k ≤ l) : v.AnsweredTo rank l w :=
  ⟨h.toAnswered, fun x hx => h.above x (by omega)⟩

/-- Answered up to a rank, and again up to it. -/
theorem trans (h : u.AnsweredTo rank k v) (h' : v.AnsweredTo rank k w) (ho : u.outline.Upright) :
    u.AnsweredTo rank k w :=
  ⟨h.toAnswered.trans h'.toAnswered ho, fun x hx =>
    (h'.above x (by rw [h.outline]; exact hx)).trans (h.above x hx)⟩

/-- What was done while an open field was claimed: nothing that depends on the
claim.  In the end the field gets back what it held, or its answer. -/
theorem of_claimed (ho : v.outline.Upright) (hrank : v.outline.catalog.Ranks rank)
    (hx : v.outline.Shows x m spec) (hopen : v.Open x) {claimed sl : Option Slot}
    (h : (v.put x claimed).AnsweredTo rank (v.outline.rank rank x) w)
    (hsl : sl = v.slots x ∨ (w.put x sl).Settled x (v.answer x)) :
    v.AnsweredTo rank (v.outline.rank rank x + 1) (w.put x sl) where
  outline := h.outline
  slots y := by
    by_cases hy : y = x
    · subst hy
      rw [put_slots_self]
      exact hsl.imp_right fun hset => ⟨⟨m, spec, hx⟩, hopen, hset⟩
    · rw [put_slots_ne w hy]
      have hold := put_slots_ne v hy claimed
      -- only lower fields were answered meanwhile, and their answers do not depend on the claim
      rcases Nat.lt_or_ge (v.outline.rank rank y) (v.outline.rank rank x) with hlt | hge
      · refine (h.slots y).imp (·.trans hold) ?_
        rintro ⟨⟨m', spec', hshows⟩, hopen', hset⟩
        have hsame : (v.put x claimed).answer y = v.answer y := by
          refine answer_congr_below ho hrank (w := v.put x claimed) rfl ?_ hshows hlt
          intro z hz
          refine put_slots_ne v ?_ claimed
          rintro rfl
          omega
        rw [hsame] at hset
        exact ⟨⟨m', spec', hshows⟩, hopen'.congr hold.symm, hset.congr (put_slots_ne w hy sl)⟩
      · exact .inl ((h.above y hge).trans hold)
  above y hy := by
    have hne : y ≠ x := by
      rintro rfl
      omega
    rw [put_slots_ne w hne, h.above y (by rw [put_outline]; omega), put_slots_ne v hne]

end AnsweredTo

end View

/-! ## §3. Computing and reading. -/

namespace Session

open LazyFields.Action

variable {s t : Session} {o : Outline} {x y : Node} {m : Member} {spec : FieldSpec} {r : Outcome}
  {rank : String × String → Nat}

/-- Reading the field gives the outcome and changes nothing. -/
def ReadsAs (s : Session) (x : Node) (r : Outcome) : Prop :=
  Ends (fun call => call (.field x.1 x.2)) s fun a t => a = r ∧ t = s

/-- Computing the field finishes fields below it, and then the field itself,
with their answers; a field that is not ready stays as it was. -/
def Computes (s : Session) (rank : String × String → Nat) (x : Node) : Prop :=
  Ends (fun call => call (.compute x.1 x.2)) s fun a t =>
    s.view.AnsweredTo rank (s.view.outline.rank rank x + 1) t.view
      ∧ Answers (s.view.answer x) a ∧ (a = .error .notReady ∨ t.ReadsAs x (s.view.answer x))

/-- A static field reads as what is known of it. -/
theorem readsAs_static (ho : s.view.outline.Upright) (hx : s.view.outline.Shows x m spec)
    (hstatic : spec.isStatic = true) : s.ReadsAs x (s.view.answer x) := by
  have hknown := View.known_of_static hx.toDeclares hstatic
  cases hr : s.view.result? x with
  | some r =>
    rw [View.answer_of_known ho hx (hknown.trans hr)]
    exact field_ends hx.member hx.field hr
  | none =>
    obtain ⟨i, hi, rfl⟩ := instance_of_member? hx.member
    have hanswer : s.view.answer x = .error (.missingStaticValue i.kind.name x.2) := by
      have hfield : i.kind.info.field? x.2 = some spec := hx.field
      rw [View.answer_eq ho hx, hknown, hr, Option.getD_none]
      simp only [Outline.valueOf, hx.member, Instance.member, hfield, hstatic, if_true]
    have hcached : i.cache.result? x.2 = none := (result?_of_instance hi x.2).symm.trans hr
    refine .call ?_
    show Ends (fun call => readField call x.1 x.2) s _
    unfold readField
    refine .next (runOn_declared hi hx.field) (.next (runOn_cached? hi x.2) ?_)
    rw [hcached]
    refine .next (runOn_getInstance hi) ?_
    simp only [hstatic, if_true]
    exact .throw ⟨hanswer.symm, rfl⟩

/-- A field that is computed and then read gives its answer. -/
theorem compute_read_ends (h : s.Computes rank x) :
    Ends (fun call => do call (.compute x.1 x.2); call (.field x.1 x.2)) s fun a t =>
      s.view.AnsweredTo rank (s.view.outline.rank rank x + 1) t.view ∧ a = s.view.answer x := by
  refine .bind h ?_ ?_
  · rintro _ t ⟨hanswered, -, hnot | hreads⟩
    · cases hnot
    · refine hreads.mono ?_
      rintro a u ⟨rfl, rfl⟩
      exact ⟨hanswered, rfl⟩
  · rintro e t ⟨hanswered, hok | ⟨e', he', he⟩, -⟩
    · cases hok
    · cases he
      exact ⟨hanswered, he'.symm⟩

/-- What the references of an open field come to while it is claimed. -/
theorem gather_answers (ho : s.view.outline.Upright) (hrank : s.view.outline.catalog.Ranks rank)
    (hx : s.view.outline.Shows x m spec) {claimed : Option Slot}
    (ht : t.view = s.view.put x claimed)
    (ih : ∀ y m' spec', s.view.outline.Shows y m' spec' →
      s.view.outline.rank rank y < s.view.outline.rank rank x →
        ∀ u : Session, u.view.outline = s.view.outline → u.Computes rank y) :
    Ends (fun call => gather call x.1 spec.refs) t fun a u =>
      a = .ok (gathered (collect s.view.answer (spec.refs.map (s.view.outline.target x.1))))
        ∧ t.view.AnsweredTo rank (s.view.outline.rank rank x) u.view := by
  have hto : t.view.outline = s.view.outline := by rw [ht]; rfl
  refine (gather_ends_of (V := fun y r => r = t.view.answer y) (o := s.view.outline)
    (I := fun u => t.view.AnsweredTo rank (s.view.outline.rank rank x) u.view) ho hx
    (fun u hu => hu.outline.trans hto) ?_ spec.refs (fun _ h => h) t (.refl ..)).mono ?_
  · intro reference href y hy u hu
    have huo := hu.outline.trans hto
    have hlt := ho.rank_target hrank hx href hy
    obtain ⟨m', spec', hshows, -⟩ := ho.has_target hx href hy
    refine (compute_read_ends (ih y m' spec' hshows hlt u huo)).mono ?_
    rintro a w ⟨hw, rfl⟩
    rw [huo] at hw
    exact ⟨hu.trans (hw.mono (by omega)) (hto ▸ ho),
      hu.answer_eq (hto ▸ ho) (hto ▸ hshows)⟩
  · rintro a u ⟨hu, g, hg, rfl⟩
    refine ⟨?_, hu⟩
    rw [hg.eq_collect]
    -- no reference depends on the claim
    congr 2
    refine collect_congr fun y hy => ?_
    obtain ⟨reference, href, htarget⟩ := List.mem_map.1 hy
    have hlt := ho.rank_target hrank hx href htarget
    obtain ⟨m', spec', hshows, -⟩ := ho.has_target hx href htarget
    refine View.answer_congr_below ho hrank hto (fun z hz => ?_) hshows hlt
    rw [ht]
    refine View.put_slots_ne _ ?_ _
    rintro rfl
    omega

/-- An open field is claimed, and concluded with its answer. -/
theorem compute_open_answers (ho : s.view.outline.Upright)
    (hrank : s.view.outline.catalog.Ranks rank) (hpure : s.view.outline.catalog.ComputesPurely)
    (hx : s.view.outline.Shows x m spec) (hcomputed : spec.isStatic = false)
    (hopen : s.view.Open x)
    (ih : ∀ y m' spec', s.view.outline.Shows y m' spec' →
      s.view.outline.rank rank y < s.view.outline.rank rank x →
        ∀ u : Session, u.view.outline = s.view.outline → u.Computes rank y) :
    s.Computes rank x := by
  obtain ⟨i, hi, rfl⟩ := instance_of_member? hx.member
  obtain ⟨-, previous, hprevious, hview⟩ := view_claimed hi hopen
  have hanswer : s.view.answer x = s.view.outline.valueOf s.view.answer x := by
    rw [View.answer_eq ho hx, hopen.known_eq, Option.getD_none]
  rw [Outline.valueOf_declares hx.toDeclares hcomputed] at hanswer
  refine .call ?_
  show Ends (fun call => computeField call x.1 x.2 false) s _
  unfold computeField
  refine .next (runOn_declared hi hx.field) ?_
  simp only [hcomputed, Bool.false_eq_true, if_false]
  refine .next (runOn_claim_of_open hi hopen) (.bind_ok (gather_answers ho hrank hx hview ih) ?_)
  intro t ht
  rw [hview] at ht
  have hmember : t.view.outline.member? x.1 = some i.member := ht.outline ▸ hx.member
  -- the field is still claimed, since only fields below it were finished
  have hslot : t.view.slots x = some (.computing previous) :=
    (ht.above x (Nat.le_refl _)).trans (View.put_slots_self ..)
  have hconclude : ∀ {a} {u : Session},
      Concluded t.view x (previous.map .stored) (s.view.answer x) a u.view →
      s.view.AnsweredTo rank (s.view.outline.rank rank x + 1) u.view
        ∧ Answers (s.view.answer x) a ∧ (a = .error .notReady ∨ u.ReadsAs x (s.view.answer x)) := by
    intro a u hconcluded
    rw [hprevious] at hconcluded
    rcases hconcluded with ⟨hr, rfl, hu⟩ | ⟨hr, ha, now, hu⟩
    · rw [hu, hr]
      exact ⟨.of_claimed ho hrank hx hopen ht (.inl rfl), .inr ⟨_, rfl, rfl⟩, .inl rfl⟩
    · have hset := View.settled_put t.view x hr now
      have hread := field_ends (s := u) (x := x) (m := i.member) (by rw [hu]; exact hmember)
        hx.field (by rw [hu]; exact hset.result?)
      rw [hu]
      exact ⟨.of_claimed ho hrank hx hopen ht (.inr hset), ha, .inr hread⟩
  cases hcollect : collect s.view.answer (spec.refs.map (s.view.outline.target x.1)) with
  | ok values =>
    have hanswer : s.view.answer x = i.member.outcome x spec values 1 := by rw [hanswer, hcollect]
    refine (runLogic_ends hmember (hpure.1 hx.kind) hslot values).mono ?_
    rintro a u ⟨number, h⟩
    rw [Outline.Member.outcome_number hpure hx.kind values number 1, ← hanswer] at h
    exact hconclude h
  | error e =>
    have hanswer : s.view.answer x = .error e := by rw [hanswer, hcollect]
    have h := (conclude_ends hmember hslot (.error e)).mono fun a u h =>
      hconclude (hanswer.symm ▸ h)
    cases e <;> exact h

/-- **Computing gives answers**, by induction on the rank. -/
theorem compute_answers (ho : o.Upright) (hrank : o.catalog.Ranks rank)
    (hpure : o.catalog.ComputesPurely) (hx : o.Shows x m spec) :
    ∀ s : Session, s.view.outline = o → s.Computes rank x := by
  induction hk : o.rank rank x using Nat.strongRecOn generalizing x m spec with
  | ind k ih =>
    rintro s rfl
    obtain ⟨i, hi, rfl⟩ := instance_of_member? hx.member
    -- the field is static, busy, finished or open, and only an open one is computed
    cases hcomputed : spec.isStatic with
    | true =>
      refine (compute_static_ends hi hx.field hcomputed).mono ?_
      rintro a t ⟨rfl, rfl⟩
      exact ⟨.refl .., .inl rfl, .inr (readsAs_static ho hx hcomputed)⟩
    | false =>
      by_cases hbusy : s.view.Busy x
      · have hanswer := View.answer_of_known ho hx
          (View.known_of_busy hx.toDeclares hcomputed hbusy)
        refine (compute_busy_ends hi hx.field hcomputed hbusy).mono ?_
        rintro a t ⟨rfl, rfl⟩
        exact ⟨.refl .., .inr ⟨_, hanswer, rfl⟩, .inl rfl⟩
      · by_cases hfinished : s.view.Finished x
        · obtain ⟨r, hr⟩ := hfinished.result?
          have hanswer := View.answer_of_known ho hx (hfinished.known_eq.trans hr)
          refine (compute_finished_ends hi hx.field hcomputed hfinished).mono ?_
          rintro a t ⟨rfl, rfl⟩
          exact ⟨.refl .., .inl rfl, .inr (hanswer ▸ field_ends hx.member hx.field hr)⟩
        · refine compute_open_answers ho hrank hpure hx hcomputed ⟨hbusy, hfinished⟩ ?_
          intro y m' spec' hy hlt u hu
          exact ih _ (by omega) hy rfl u hu

/-! ## §4. Registering and resolving. -/

section Resolve

variable (ho : s.view.outline.Upright) (hpure : s.view.outline.catalog.ComputesPurely)

include ho hpure

/-- **Computing a field ends, and gives its answer,** unless it is not ready. -/
theorem compute_ends_answered (hx : s.view.outline.Shows x m spec) :
    Ends (fun call => call (.compute x.1 x.2)) s fun a t => s.view.Answered t.view
      ∧ Answers (s.view.answer x) a ∧ (a = .error .notReady ∨ t.ReadsAs x (s.view.answer x)) := by
  obtain ⟨rank, hrank⟩ := ho.lawful.ranked
  refine (compute_answers ho hrank hpure hx s rfl).mono ?_
  rintro a t ⟨ht, hrest⟩
  exact ⟨ht.toAnswered, hrest⟩

/-- A field watches one of its references, which is registered and computed if
nobody watched it. -/
theorem follow_answers (hx : s.view.outline.Shows x m spec) {reference : String}
    (href : reference ∈ spec.refs)
    (ih : ∀ y, s.view.outline.target x.1 reference = some y →
      ∀ t : Session, t.view.outline = s.view.outline →
        Ends (fun call => call (.register y.1 y.2)) t fun a u =>
          a = .ok () ∧ t.view.Answered u.view) :
    Ends (fun call => follow call ⟨(s.view.outline.target x.1 reference).map Prod.fst,
        (referent m.kind.name reference).2, m.targetAddress reference⟩ x.1 x.2) s fun a t =>
      a = .ok () ∧ s.view.Answered t.view := by
  obtain ⟨i, hi, rfl⟩ := instance_of_member? hx.member
  let t : Session := { s with
    watches := (s.watches.watch (i.member.targetAddress reference) (i.fieldAddress x.2)
      (.recompute x.1 x.2)).2 }
  have ht : s.view.Answered t.view := ⟨rfl, fun _ => .inl rfl⟩
  unfold follow
  refine .next (runOn_getInstance hi) (.next runOn_get (.next (runOn_set t) ?_))
  -- only the first to watch an address registers and computes what stands there
  split
  · exact .pure ⟨rfl, ht⟩
  · cases htarget : s.view.outline.target x.1 reference with
    | none => exact .pure ⟨rfl, ht⟩
    | some y =>
      obtain ⟨m', spec', hy, -, hname⟩ := ho.has_target hx href htarget
      simp only [Option.map_some]
      rw [hname]
      refine .bind_ok (ih y htarget t rfl) ?_
      intro u hu
      have huo : u.view.outline = s.view.outline := hu.outline
      refine .ignore ((compute_ends_answered (huo ▸ ho) (huo ▸ hpure) (huo ▸ hy)).mono ?_)
      rintro a w ⟨hw, -⟩
      exact ⟨rfl, ht.trans (hu.trans hw ho) ho⟩

omit ho hpure in
/-- **Registering computes some fields on the way**, by induction on the rank. -/
theorem register_answers (ho : o.Upright) (hpure : o.catalog.ComputesPurely)
    (hx : o.Shows x m spec) : ∀ s : Session, s.view.outline = o →
      Ends (fun call => call (.register x.1 x.2)) s fun a t =>
        a = .ok () ∧ s.view.Answered t.view := by
  obtain ⟨rank, hrank⟩ := ho.lawful.ranked
  induction hk : o.rank rank x using Nat.strongRecOn generalizing x m spec with
  | ind k ih =>
    rintro s rfl
    obtain ⟨i, hi, rfl⟩ := instance_of_member? hx.member
    refine .call ?_
    show Ends (fun call => register call x.1 x.2) s _
    unfold register
    refine .next (runOn_declared hi hx.field) ?_
    split
    · exact .pure ⟨rfl, .refl _⟩
    · refine .next (runOn_requireLive hi ho.live) ?_
      -- the references are followed one by one, and in between some fields have been answered
      refine Ends.forM (I := fun left t => (∀ reference ∈ left, reference ∈ spec.refs)
        ∧ s.view.Answered t.view) ?_ (fun t ht => ⟨rfl, ht.2⟩) spec.refs s
        ⟨fun _ h => h, .refl _⟩
      rintro reference left t ⟨hleft, ht⟩
      have href := hleft reference List.mem_cons_self
      have hto := ht.outline
      refine .next (runOn_targetOf_of_shows (hto ▸ ho) (hto ▸ hx) href) ?_
      refine (follow_answers (hto ▸ ho) (hto ▸ hpure) (hto ▸ hx) href ?_).mono ?_
      · intro y hy u hu
        rw [hto] at hy hu
        have hlt := ho.rank_target hrank hx href hy
        obtain ⟨m', spec', hshows, -⟩ := ho.has_target hx href hy
        exact ih _ (by omega) hshows rfl u hu
      · rintro a u ⟨rfl, hu⟩
        exact ⟨rfl, fun r hr => hleft r (List.mem_cons_of_mem _ hr), ht.trans hu ho⟩

/-- **Resolving a field gives its answer** and changes no answer. -/
theorem resolve_answers (hx : s.view.outline.Shows x m spec) :
    Ends (fun call => call (.resolve x.1 x.2)) s fun a t =>
      a = s.view.answer x ∧ s.view.Answered t.view := by
  refine .call ?_
  show Ends (fun call => resolveField call x.1 x.2) s _
  unfold resolveField
  refine .bind_ok (register_answers ho hpure hx s rfl) ?_
  intro t ht
  have hto := ht.outline
  rw [← ht.answer_eq ho hx]
  refine .attempt_bind (compute_ends_answered (hto ▸ ho) (hto ▸ hpure) (hto ▸ hx)) ?_
  rintro a u ⟨hu, hanswers, hreads⟩
  have hsu := ht.trans hu ho
  have hread : u.ReadsAs x (t.view.answer x) → Ends (fun call => call (.field x.1 x.2)) u
      fun a w => a = t.view.answer x ∧ s.view.Answered w.view := by
    refine fun h => h.mono ?_
    rintro b w ⟨rfl, rfl⟩
    exact ⟨rfl, hsu⟩
  rcases hanswers with rfl | ⟨e, he, rfl⟩
  · exact hread (hreads.resolve_left (by simp))
  · cases e with
    | notReady => exact .throw ⟨he.symm, hsu⟩
    | _ => exact hread (hreads.resolve_left (by simp))

end Resolve

end Session

end LazyFields
