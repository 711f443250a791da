/-
  LazyFields.Proofs.Session.History
  ────────────────────────────────
  **WHAT A SESSION KEEPS IN EVERY RUN.**

  Each function of a session tracks what is published when the operations that
  it performs do.  For functions that change caches at most this follows from the
  congruence; the others watch fields or construct instances, and there is one
  lemma for each.  The argument is in `tracksAt_publish`: an instance gets its
  number, its id and its address in three steps, and is hidden until the last
  one.

  A run goes through the sessions at which its operations start and end, those
  included that logic performs while another one is under way
  (`Session.Performs`).  Between any two of them what was published stays
  published (`Session.Later.precedes`).
-/
import LazyFields.Proofs.Session.Tracks
import Mathlib.Logic.Relation

namespace LazyFields

open LazyFields.Action (Tracks TracksAt)

namespace Session

variable {before after s : Session} {n : Nat} {field : String}

/-! ## §1. Fields. -/

variable {call call' : Performer}

/-- Following a target keeps the outline, apart from what the operations within
do. -/
theorem tracks_follow (h : call.Tracks before after call') (target : Target) (n : Nat)
    (field : String) :
    Tracks before after (follow call target n field) (follow call' target n field) := by
  unfold follow
  refine .bind (.inert (inert_getInstance n)) fun i => .get_bind fun s hs => ?_
  refine TracksAt.andThen (tracksAt_set hs rfl) fun _ => ?_
  split
  · exact .inert (.pure ())
  · split
    · exact .inert (.pure ())
    · exact .bind (h _) fun _ => (Tracks.congruence before after).ignore (h _)

/-- So does registering a field. -/
theorem tracks_register (h : call.Tracks before after call') (n : Nat) (field : String) :
    Tracks before after (register call n field) (register call' n field) := by
  unfold register
  refine .bind (.inert (inert_declared n field)) fun info => ?_
  split
  · exact .inert (.pure ())
  · refine .bind (.inert (inert_requireLive n)) fun _ => (Tracks.congruence before after).forM ?_ _
    intro reference
    exact .bind (.inert (inert_targetOf n reference)) fun target => tracks_follow h target n field

/-- So does watching one. -/
theorem tracks_watchField (h : call.Tracks before after call') (n : Nat) (field watcher : String) :
    Tracks before after (watchField call n field watcher) (watchField call' n field watcher) := by
  unfold watchField
  refine .bind (.inert (inert_declared n field)) fun _ =>
    .bind (.inert (inert_getInstance n)) fun i =>
      .get_bind fun s hs => TracksAt.andThen (tracksAt_set hs rfl) fun _ => ?_
  split
  · exact .inert (.pure ())
  · split
    · refine .bind (h _) fun _ => .bind (.attempt (h _)) fun computed => ?_
      split
      · exact .inert (.pure ())
      · exact (Tracks.congruence before after).runFollowUp (fun op _ => h op) _
    · refine .bind (.inert (inert_cached? n field)) fun cached => ?_
      split
      · exact .inert (inert_note _)
      · exact .inert (.pure ())

/-! ## §2. Instances. -/

variable {k : Kind} {o : Outline}

/-- What runs before construction asks operations only. -/
theorem tracks_prepare (h : call.Tracks before after call') (k : Kind) (args : Args) :
    Tracks before after (prepare call k args) (prepare call' k args) :=
  (Tracks.congruence before after).prepare h k args

/-- So does choosing the id. -/
theorem tracks_chooseId (h : call.Tracks before after call') (k : Kind) (n : Nat)
    (forced : Option String) :
    Tracks before after (chooseId call k n forced) (chooseId call' k n forced) :=
  (Tracks.congruence before after).chooseId h k n forced

/-- Waking the fields of an instance asks operations only. -/
theorem tracks_wakes (h : call.Tracks before after call') (n : Nat) (fields : List String) :
    Tracks before after (fields.forM (wake call n)) (fields.forM (wake call' n)) :=
  (Tracks.congruence before after).forM
    ((Tracks.congruence before after).wake (fun op _ => h op) n) fields

/-- The session with one more instance, which has no id yet. -/
def allocated (s : Session) (k : Kind) (cache : Cache) : Session :=
  { s with instances := s.instances ++ [⟨k, "", cache, false⟩] }

/-- A new instance stands at the end, and its number is the answer. -/
theorem runOn_allocate (s : Session) (k : Kind) (cache : Cache) :
    (allocate k cache).runOn s = some (.ok s.instances.length, s.allocated k cache) := by
  simp only [allocate, Action.runOn_bind, runOn_get, runOn_set, Action.runOn_pure, allocated]

/-- The new instance is hosted: nobody finds it, the others are as before. -/
theorem hosts_allocated (hs : s.outline.Keyed) (k : Kind) (cache : Cache) :
    s.outline.Hosts s.instances.length ⟨k, "", false⟩ (s.allocated k cache).outline := by
  have hhosts := hs.hosts ⟨k, "", false⟩
  have hlength : s.outline.members.length = s.instances.length := by simp [outline]
  rw [hlength] at hhosts
  simpa [outline, allocated, Instance.member] using hhosts

/-- A change of the new instance leaves it hosted. -/
theorem tracksAt_modify {f : Instance → Instance} {g : Member → Member} {m : Member}
    (hf : ∀ i, (f i).member = g i.member) (hs : o.Hosts n m s.outline) :
    TracksAt before after (modify (·.modifyInstance n f) : Action PUnit)
      (modify (·.modifyInstance n f)) s fun _ t => o.Hosts n (g m) t.outline := by
  obtain ⟨hhosts, hprecedes⟩ := hs.modify g
  rw [← outline_modifyInstance hf] at hhosts hprecedes
  exact .of_runOn (runOn_modify _) hprecedes hhosts

/-- An instance under construction is discarded, and something else is done. -/
theorem tracksAt_discard {α : Type} {f g : Unit → Action α} {m : Member}
    (hs : o.Hosts n m s.outline) (h : ∀ x, Tracks before after (f x) (g x)) :
    TracksAt before after (discard n >>= f) (discard n >>= g) s fun _ t =>
      o.Evolves t.outline := by
  have hdiscard : TracksAt before after (discard n) (discard n) s fun _ t =>
      o.Hosts n { m with discarded := true } t.outline :=
    tracksAt_modify (g := fun m => { m with discarded := true }) (fun _ => rfl) hs
  refine hdiscard.bind ?_ fun e t ht => ht.evolves
  intro x t _ hkeyed ht
  exact (h x t hkeyed).mono fun _ _ hnext => ht.evolves.trans hnext

/-- **A new instance is published under a free address, or discarded.** -/
theorem tracksAt_publish (h : call.Tracks before after call') (hk : o.catalog.Has k)
    (hs : o.Hosts n ⟨k, "", false⟩ s.outline) (id : String) :
    TracksAt before after (publish call k n id) (publish call' k n id) s fun _ t =>
      o.Evolves t.outline := by
  unfold publish
  refine (tracksAt_modify (g := fun m => { m with id }) (fun _ => rfl) hs).bind ?_
    fun e t ht => ht.evolves
  intro _ t _ hkeyed ht
  refine .next runOn_get (.refl hkeyed) ?_
  dsimp only
  split
  · exact tracksAt_discard ht fun _ => .inert (.pure _)
  · next hfree =>
    obtain ⟨hevolves, hprecedes⟩ := ht.publish rfl (ht.evolves.catalog ▸ hk) rfl hfree
    refine .next (runOn_set _) hprecedes ?_
    have hrest : Tracks before after
        (k.info.fields.keys.forM (wake call n) >>= fun _ => pure (Ref.mk n k.name id))
        (k.info.fields.keys.forM (wake call' n) >>= fun _ => pure (Ref.mk n k.name id)) :=
      .bind (tracks_wakes h n _) fun _ => .inert (.pure _)
    exact (hrest _ hprecedes.keyed).mono fun _ _ hnext => hevolves.trans hnext

/-- Construction adds an instance, and perhaps publishes it. -/
theorem tracksAt_construct (h : call.Tracks before after call') (hs : s.outline.Keyed)
    (hk : s.catalog.Has k) (args : Args) :
    TracksAt before after (construct call k args) (construct call' k args) s fun _ t =>
      s.outline.Evolves t.outline := by
  unfold construct
  refine .check hs ?_ fun e => .refl _
  rintro ⟨forced, given⟩ -
  refine .next runOn_get (.refl hs) ?_
  refine .check hs ?_ fun e => .refl _
  intro cache _
  have hhosts := hosts_allocated hs k cache
  refine .next (runOn_allocate s k cache) (hhosts.evolves.precedes hhosts.keyed) ?_
  -- what the id logic does leaves the new instance alone, since it is not published
  have hchosen : TracksAt before after (chooseId call k s.instances.length forced)
      (chooseId call' k s.instances.length forced) (s.allocated k cache) fun _ t =>
        s.outline.Hosts s.instances.length ⟨k, "", false⟩ t.outline := by
    have hchoose := tracks_chooseId h k s.instances.length forced _ hhosts.keyed
    refine ⟨?_, hchoose.2⟩
    intro r t hrun
    obtain ⟨hprecedes, hevolves⟩ := hchoose.1 r t hrun
    exact ⟨hprecedes, hhosts.evolve hprecedes.keyed hevolves⟩
  refine TracksAt.bind (P := fun _ t =>
    s.outline.Hosts s.instances.length ⟨k, "", false⟩ t.outline) hchosen.attempt ?_
    fun e t ht => ht.evolves
  intro chosen t _ _ ht
  cases chosen with
  | ok id => exact tracksAt_publish h hk ht id
  | error e => exact tracksAt_discard ht fun _ => .inert (.throw e)

/-- So does creating one, after what runs before it. -/
theorem tracks_create (h : call.Tracks before after call') (kind : String) (args : Args) :
    Tracks before after (create call kind args) (create call' kind args) := by
  refine .get_bind fun s hs => .check hs ?_ fun e => .refl _
  intro k hget
  have hk : s.catalog.Has k := Catalog.has_of_get hget
  refine (tracks_prepare h k args s hs).bind ?_ fun e t ht => ht
  intro prepared t _ hkeyed ht
  cases prepared with
  | existing r => exact (Tracks.inert (.pure r) t hkeyed).mono fun _ _ hsame => ht.trans hsame
  | proceed args =>
    have hthere : t.catalog.Has k := by
      have hcatalog : t.catalog = s.catalog := ht.catalog
      rw [hcatalog]
      exact hk
    exact (tracksAt_construct h hkeyed hthere args).mono fun _ _ hnext => ht.trans hnext

/-! ## §3. Operations. -/

/-- If operations within an operation are tracked, then so is the operation. -/
theorem tracks_step (h : call.Tracks before after call') :
    Performer.Tracks before after (step call) (step call') := by
  have C := Tracks.congruence before after
  intro op
  cases op with
  | register n field => exact tracks_register h n field
  | create kind args => exact tracks_create h kind args
  | watch n field watcher => exact tracks_watchField h n field watcher
  | watchCompute n field follower followerField =>
    exact .bind (.inert (inert_getInstance n)) fun i => tracks_follow h _ follower followerField
  | unregister watcher =>
    refine .of_outline ?_
    intro s r t hrun
    cases hrun
    rfl
  | _ => exact C.step (fun op _ => h op) (C.runLogic h) id

/-- **Every operation is tracked,** by induction on the depth. -/
theorem tracks_perform (before after : Session) (fuel : Nat) :
    Performer.Tracks before after (perform fuel) (perform fuel) := by
  induction fuel with
  | zero => exact fun _ => .inert .stuck
  | succ fuel ih => exact tracks_step ih

/-- **An operation adds instances and publishes them,** and leaves the others
what they are. -/
theorem evolves_run (hs : s.outline.Keyed) {fuel : Nat} {op : Operation}
    {r : Except Error op.Answer} {t : Session} (hrun : s.run fuel op = some (r, t)) :
    t.outline.Keyed ∧ s.outline.Evolves t.outline := by
  obtain ⟨hprecedes, hevolves⟩ := (tracks_perform s s fuel op s hs).1 r t hrun
  exact ⟨hprecedes.keyed, hevolves⟩

end Session

/-! ## §4. Operations within operations. -/

open Classical in
/-- The performer without its answer to one operation on one session. -/
noncomputable def Performer.without (call : Performer) (op : Operation) (s : Session) :
    Performer := fun op' =>
  ExceptT.mk fun s' => if op' = op ∧ s' = s then none else (call op').runOn s'

/-- Where the answer is missing, the performer passes through the session before
it and the one after it. -/
theorem Performer.tracks_without {call : Performer} {op : Operation} {before after : Session}
    (h : call.Tracks before after call)
    (hrun : ∀ r t, (call op).runOn before = some (r, t) → t = after) :
    call.Tracks before after (call.without op before) := by
  intro op' s hs
  refine ⟨(h op' s hs).1, ?_⟩
  by_cases hsame : op' = op ∧ s = before
  · obtain ⟨rfl, rfl⟩ := hsame
    refine .inr ⟨.refl hs, ?_⟩
    intro r t ht
    obtain rfl := hrun r t ht
    exact .refl ((h op' s hs).1 r t ht).1.keyed
  · exact .inl (if_neg hsame)

namespace Session

variable {s t u : Session} {fuel : Nat} {op inner : Operation}

/-- While `op` is performed on `s`, `inner` is performed on `t`: without the
answer to that there is none. -/
def Performs (fuel : Nat) (op : Operation) (s : Session) (inner : Operation) (t : Session) : Prop :=
  (s.run (fuel + 1) op).isSome ∧ (step ((perform fuel).without inner t) op).runOn s = none

/-- What is published stays published from the start of an operation to any
operation within it, and from the end of that one to the end of the whole. -/
theorem Performs.precedes (h : Performs fuel op s inner t) (hs : s.outline.Keyed) :
    s.outline.Precedes t.outline
      ∧ ∀ a w, t.run fuel inner = some (a, w) → ∀ r u, s.run (fuel + 1) op = some (r, u) →
        w.outline.Precedes u.outline := by
  obtain ⟨hanswer, hstuck⟩ := h
  have hpass : ∀ w, (∀ a w', t.run fuel inner = some (a, w') → w' = w) →
      s.outline.Precedes t.outline
        ∧ ∀ r u, s.run (fuel + 1) op = some (r, u) → w.outline.Precedes u.outline := by
    intro w hw
    have htracks := tracks_step (Performer.tracks_without (tracks_perform t w fuel) hw) op s hs
    rcases htracks.2 with hsame | hpass
    · have hnone : s.run (fuel + 1) op = none := hsame.symm.trans hstuck
      simp [hnone] at hanswer
    · exact hpass
  -- the operation within has one answer at most, so the session that it ends in is determined
  cases hinner : t.run fuel inner with
  | none =>
    refine ⟨(hpass t ?_).1, ?_⟩
    · intro a w' hw
      simp [hinner] at hw
    · intro a w hw
      simp at hw
  | some p =>
    obtain ⟨a, w⟩ := p
    have hw : ∀ a' w', t.run fuel inner = some (a', w') → w' = w := by
      intro a' w' hw'
      rw [hinner] at hw'
      cases hw'
      rfl
    refine ⟨(hpass w hw).1, ?_⟩
    intro a' w' hw'
    cases hw'
    exact (hpass w hw).2

/-- Whatever the owner of a session does besides performing operations. -/
inductive Passes : Session → Session → Prop where
  /-- Time goes on, or back. -/
  | wait (s : Session) (now : Int) : Passes s { s with now }
  | claim (s : Session) (n : Nat) (field guard : String) (force : Bool) :
      Passes s (s.claim n field guard force).2
  | dropGuard (s : Session) (guard : String) : Passes s (s.dropGuard guard).2
  | finishGuard (s : Session) (guard : String) (e : Entry) : Passes s (s.finishGuard guard e).2

/-- The session occurs in a run over the catalog, perhaps while an operation is
performed. -/
inductive Occurs (c : Catalog) : Session → Prop where
  | new (config : Config) (now : Int) : Occurs c (.new c config now)
  | run {s t : Session} {fuel : Nat} {op : Operation} {r : Except Error op.Answer} :
      Occurs c s → s.run fuel op = some (r, t) → Occurs c t
  | enter {s t : Session} {fuel : Nat} {op inner : Operation} :
      Occurs c s → Performs fuel op s inner t → Occurs c t
  | pass {s t : Session} : Occurs c s → Passes s t → Occurs c t

/-- How a run over the catalog goes on. -/
inductive Next (c : Catalog) : Session → Session → Prop where
  /-- An operation is performed. -/
  | run {s t : Session} {fuel : Nat} {op : Operation} {r : Except Error op.Answer} :
      s.run fuel op = some (r, t) → Next c s t
  /-- While an operation is performed, another one begins. -/
  | enter {s t : Session} {fuel : Nat} {op inner : Operation} :
      Performs fuel op s inner t → Next c s t
  /-- That one has ended, and then the first one ends as well. -/
  | leave {s t u w : Session} {fuel : Nat} {op inner : Operation}
      {a : Except Error inner.Answer} {r : Except Error op.Answer} :
      Occurs c s → Performs fuel op s inner t → t.run fuel inner = some (a, w) →
      s.run (fuel + 1) op = some (r, u) → Next c w u
  | pass {s t : Session} : Passes s t → Next c s t

/-- A run over the catalog goes from the first session to the second one. -/
def Later (c : Catalog) (s t : Session) : Prop := Relation.ReflTransGen (Next c) s t

variable {c : Catalog}

/-- Dropping a guard gives a claim back, which the outline does not see. -/
theorem outline_dropGuard (s : Session) (guard : String) :
    (s.dropGuard guard).2.outline = s.outline := by
  unfold dropGuard
  split
  · rfl
  · exact outline_modifyInstance_self (f := fun i => { i with cache := i.cache.release _ })
      (fun _ => rfl) s _

/-- What passes besides operations is not in the outline. -/
theorem Passes.outline (h : Passes s t) : t.outline = s.outline := by
  cases h with
  | wait now => rfl
  | dropGuard guard => exact outline_dropGuard s guard
  | finishGuard guard e =>
    unfold Session.finishGuard
    split
    · rfl
    · exact outline_modifyInstance_self (f := fun i => { i with cache := i.cache.finish _ e })
        (fun _ => rfl) s _
  | claim n field guard force =>
    unfold Session.claim
    split
    · rfl
    · split
      · exact (outline_dropGuard _ guard).trans (outline_setCache s n _)
      · exact outline_setCache s n _

/-- **Addresses are true in every run.** -/
theorem Occurs.keyed (h : Occurs c s) : s.outline.Keyed ∧ s.catalog = c := by
  induction h with
  | new config now =>
    refine ⟨?_, rfl⟩
    intro address n hn
    simp [outline, Session.new] at hn
  | run _ hrun ih =>
    obtain ⟨hkeyed, hevolves⟩ := evolves_run ih.1 hrun
    exact ⟨hkeyed, Eq.trans hevolves.catalog ih.2⟩
  | enter _ hperforms ih =>
    have hprecedes := (hperforms.precedes ih.1).1
    exact ⟨hprecedes.keyed, Eq.trans hprecedes.catalog ih.2⟩
  | pass _ hpass ih =>
    have hsame := hpass.outline
    refine ⟨hsame ▸ ih.1, ?_⟩
    exact Eq.trans (congrArg Outline.catalog hsame) ih.2

/-- However a run goes on, what was published stays published. -/
theorem Next.precedes (h : Next c s t) (hs : s.outline.Keyed) : s.outline.Precedes t.outline := by
  cases h with
  | run hrun =>
    obtain ⟨hkeyed, hevolves⟩ := evolves_run hs hrun
    exact hevolves.precedes hkeyed
  | enter hperforms => exact (hperforms.precedes hs).1
  | leave houter hperforms hinner hrun =>
    exact (hperforms.precedes houter.keyed.1).2 _ _ hinner _ _ hrun
  | pass hpass =>
    rw [hpass.outline]
    exact .refl hs

/-- **What is published stays published in every run.** -/
theorem Later.precedes (h : Later c s t) (hs : s.outline.Keyed) :
    s.outline.Precedes t.outline := by
  induction h with
  | refl => exact .refl hs
  | tail _ hnext ih => exact ih.trans (hnext.precedes ih.keyed)

end Session

end LazyFields
