/-
  LazyFields.Proofs.Session.Refusal
  ────────────────────────────────
  **WHEN AN INSTANCE IS NOT CONSTRUCTED.**

  A call that is to construct an instance fails for one of four reasons: there
  is no kind of the name, the logic before construction fails, the arguments are
  refused, or the id logic fails (`Session.Fails`).  Until then nobody can find
  the new instance, and once it is published nothing can fail any more; so what
  is left of a failed call is an instance that nobody finds.

    · `Kind.Refuses` — which arguments are refused, and `refuses_iff`; what is a
      regular expression is for the engine to say that the host brings
    · `Action.Unfailing` — publishing an instance never fails
    · `fails_iff_traceless` — a call fails for one of these reasons and no
      other, and then it leaves no trace
    · `reserved_argument_missing` — the argument that forces the id is never
      given to a field, even if there is one of its name
-/
import LazyFields.Proofs.Catalog.Assembled
import LazyFields.Proofs.Session.Environment
import LazyFields.Proofs.Session.Undisturbed

namespace LazyFields

/-! ## §1. Arguments that are refused. -/

namespace Kind

variable {k : Kind} {engine : PatternEngine} {args : Args} {arg : String} {v : Value} {now : Int}

/-- The kind has no place for the argument: it names no field, or its value is
neither null nor of the type of the field, or it should be a regular expression
and the engine does not compile it. -/
inductive RefusesArgument (k : Kind) (engine : PatternEngine) (arg : String) : Value → Prop where
  | unknown {v : Value} (h : k.info.field? arg = none) : RefusesArgument k engine arg v
  | type {v : Value} {spec : FieldSpec} (hspec : k.info.field? arg = some spec)
      (hnull : v.isNull = false) (htype : v.matchesType spec.type = false) :
      RefusesArgument k engine arg v
  | pattern {text reason : String} {spec : FieldSpec}
      (hspec : k.info.field? arg = some spec) (htype : spec.type = .regex)
      (hfault : engine text = some reason) : RefusesArgument k engine arg (.string text)

/-- The arguments are refused: what is to force the id is no text, or an argument
has no place, or a static field has no argument of its own. -/
inductive Refuses (k : Kind) (engine : PatternEngine) (args : Args) : Prop where
  | id {v : Value} (h : args.get? idArgument = some v) (hnull : v ≠ .null)
      (htext : ∀ id, v ≠ .string id)
  | argument {arg : String} {v : Value} (hne : arg ≠ idArgument) (h : args.get? arg = some v)
      (hrefuses : k.RefusesArgument engine arg v)
  | missing {field : String} {spec : FieldSpec} (hspec : k.info.field? field = some spec)
      (hstatic : spec.isStatic = true) (hnone : (args.erase idArgument).get? field = none)

/-- An argument without a place fails its check, and no other one does. -/
theorem refusesArgument_iff :
    k.RefusesArgument engine arg v ↔ ∃ e, k.checkArgument engine arg v = .error e := by
  constructor
  · intro h
    cases h with
    | unknown hnone =>
      refine ⟨.unknownArgument k.name arg, ?_⟩
      simp only [checkArgument, hnone]
    | type hspec hnull htype =>
      simp only [checkArgument, hspec, hnull, htype, Bool.false_eq_true, if_false, Bool.not_false,
        if_true]
      exact ⟨_, rfl⟩
    | @pattern text reason spec hspec hregex hfault =>
      simp only [checkArgument, hspec, Value.isNull, Bool.false_eq_true, if_false]
      split
      · exact ⟨_, rfl⟩
      · simp only [hregex, hfault]
        exact ⟨_, rfl⟩
  · rintro ⟨e, h⟩
    unfold checkArgument at h
    split at h
    · next hnone => exact .unknown hnone
    · next spec hspec =>
      split at h
      · simp at h
      · next hnull =>
        split at h
        · next htype => exact .type hspec (by simpa using hnull) (by simpa using htype)
        · split at h
          · next _ hregex _ =>
            split at h
            · next reason hfault => exact .pattern hspec hregex hfault
            · simp at h
          · simp at h

/-- The forced id is refused if it is neither null nor a text. -/
theorem takeId_eq_error_iff : (∃ e, k.takeId args = .error e) ↔
    ∃ v, args.get? idArgument = some v ∧ v ≠ .null ∧ ∀ id, v ≠ .string id := by
  unfold takeId
  cases hget : args.get? idArgument with
  | none => simp
  | some v => cases v <;> simp

/-- Arguments are stored one by one up to the first that has no place. -/
theorem foldlM_eq_error_iff {es : List (String × Value)} :
    ∀ {c : Cache}, (∃ e, es.foldlM (fun (c : Cache) e => do
        k.checkArgument engine e.1 e.2
        .ok (c.store e.1 (Entry.ofValue e.2 now))) c = .error e)
      ↔ ∃ e ∈ es, k.RefusesArgument engine e.1 e.2 := by
  induction es with
  | nil => simp [pure, Except.pure]
  | cons e es ih =>
    intro c
    rw [List.foldlM_cons]
    cases hcheck : k.checkArgument engine e.1 e.2 with
    | error err =>
      have hrefuses : k.RefusesArgument engine e.1 e.2 := refusesArgument_iff.2 ⟨err, hcheck⟩
      simp [Bind.bind, Except.bind, hrefuses]
    | ok u =>
      have haccepts : ¬ k.RefusesArgument engine e.1 e.2 := by
        intro hrefuses
        obtain ⟨err, herr⟩ := refusesArgument_iff.1 hrefuses
        simp [hcheck] at herr
      simp only [Bind.bind, Except.bind, List.exists_mem_cons_iff, haccepts, false_or]
      exact ih

/-- The first cache cannot be filled if an argument has no place, or a static
field no argument. -/
theorem cacheOf_eq_error_iff (hkeyed : k.info.Keyed) :
    (∃ e, k.cacheOf engine now args = .error e) ↔
    (∃ e ∈ args.entries, k.RefusesArgument engine e.1 e.2)
      ∨ ∃ field spec, k.info.field? field = some spec ∧ spec.isStatic = true
        ∧ args.get? field = none := by
  unfold cacheOf
  cases hfold : args.entries.foldlM (fun (c : Cache) e => do
      k.checkArgument engine e.1 e.2
      .ok (c.store e.1 (Entry.ofValue e.2 now))) ∅ with
  | error e =>
    have hrefused := foldlM_eq_error_iff.1 ⟨e, hfold⟩
    simp only [Bind.bind, Except.bind, Except.error.injEq, exists_eq', hrefused, true_or]
  | ok cache =>
    have hfits : ¬ ∃ e ∈ args.entries, k.RefusesArgument engine e.1 e.2 := by
      intro hrefused
      obtain ⟨err, herr⟩ := (foldlM_eq_error_iff (c := ∅)).2 hrefused
      exact absurd (hfold.symm.trans herr) (by simp)
    obtain ⟨hslots, -⟩ := foldlM_store args.entries args.sorted hfold
    -- what is in the cache is what was given
    have hget : ∀ field, (cache.get? field).isNone = true ↔ args.get? field = none := by
      intro field
      rw [Cache.get?, hslots field, Cache.slot?_empty]
      show _ ↔ Entries.find field args.entries = none
      cases Entries.find field args.entries <;> simp [Slot.seen]
    have hmissing : (∃ field, k.missingField? cache = some field) ↔
        ∃ field spec, k.info.field? field = some spec ∧ spec.isStatic = true
          ∧ args.get? field = none := by
      unfold missingField?
      simp only [Option.map_eq_some_iff]
      constructor
      · rintro ⟨_, spec, hfind, rfl⟩
        obtain ⟨hvalue, hstatic⟩ := List.mem_filter.1 (List.mem_of_find?_eq_some hfind)
        obtain ⟨field, hspec⟩ := Table.mem_values.1 hvalue
        have hfound := List.find?_some (p := fun f : FieldSpec => (cache.get? f.name).isNone) hfind
        have hnone := (hget spec.name).1 hfound
        exact ⟨field, spec, hspec, hstatic, hkeyed field spec hspec ▸ hnone⟩
      · rintro ⟨field, spec, hspec, hstatic, hnone⟩
        have hmem : spec ∈ k.info.statics :=
          List.mem_filter.2 ⟨Table.mem_values.2 ⟨field, hspec⟩, hstatic⟩
        have hnone : (cache.get? spec.name).isNone = true :=
          (hget spec.name).2 (hkeyed field spec hspec ▸ hnone)
        have hsome : (k.info.statics.find? fun f => (cache.get? f.name).isNone).isSome :=
          List.find?_isSome.2 ⟨spec, hmem, hnone⟩
        obtain ⟨found, hfound⟩ := Option.isSome_iff_exists.1 hsome
        exact ⟨_, found, hfound, rfl⟩
    simp only [Bind.bind, Except.bind, hfits, false_or, ← hmissing]
    cases k.missingField? cache <;> simp

/-- **Arguments are refused when one of the two checks fails.** -/
theorem refuses_iff (hkeyed : k.info.Keyed) (engine : PatternEngine) (now : Int) :
    k.Refuses engine args ↔ (∃ e, k.takeId args = .error e)
      ∨ ∃ e, k.cacheOf engine now (args.erase idArgument) = .error e := by
  rw [takeId_eq_error_iff, cacheOf_eq_error_iff hkeyed]
  have herased : ∀ {arg v}, (arg, v) ∈ (args.erase idArgument).entries ↔
      arg ≠ idArgument ∧ args.get? arg = some v := by
    intro arg v
    rw [← Table.get?_eq_some_iff_mem, Table.get?_erase]
    by_cases hid : idArgument = arg
    · simp [hid]
    · simp [hid, Ne.symm hid]
  constructor
  · intro h
    cases h with
    | id h hnull htext => exact .inl ⟨_, h, hnull, htext⟩
    | argument hne h hrefuses => exact .inr (.inl ⟨(_, _), herased.2 ⟨hne, h⟩, hrefuses⟩)
    | missing hspec hstatic hnone => exact .inr (.inr ⟨_, _, hspec, hstatic, hnone⟩)
  · rintro (⟨v, h, hnull, htext⟩ | ⟨⟨arg, v⟩, hmem, hrefuses⟩ | ⟨field, spec, hspec, hstatic, hnone⟩)
    · exact .id h hnull htext
    · exact .argument (herased.1 hmem).1 (herased.1 hmem).2 hrefuses
    · exact .missing hspec hstatic hnone

end Kind

/-! ## §2. Actions that never fail. -/

namespace Action

variable {α β : Type} {a : Action α} {f : α → Action β}

/-- Whatever the session, the action does not end with an error. -/
def Unfailing (a : Action α) : Prop := ∀ s e t, a.runOn s ≠ some (.error e, t)

namespace Unfailing

theorem pure (x : α) : Unfailing (Pure.pure x : Action α) := by
  intro s e t h
  simp at h

theorem stuck : Unfailing (Action.stuck : Action α) := by
  intro s e t h
  simp at h

/-- Two actions that do not fail, one after the other. -/
theorem bind (h : Unfailing a) (k : ∀ x, Unfailing (f x)) : Unfailing (a >>= f) := by
  intro s e u hrun
  rcases parts_of_runOn_bind hrun with ⟨x, t, -, hsecond⟩ | ⟨e', hfirst, -⟩
  · exact k x t e u hsecond
  · exact h s e' u hfirst

/-- An attempt does not fail, whatever is attempted. -/
theorem attempt (a : Action α) : Unfailing (Action.attempt a) := by
  intro s e t h
  obtain ⟨r, hr, -⟩ := runOn_of_attempt h
  cases hr

theorem ignore (a : Action α) : Unfailing (Action.ignore a) := .bind (.attempt a) fun _ => .pure ()

/-- An action that does not fail, for every member of a list. -/
theorem forM {xs : List β} {f : β → Action PUnit} (h : ∀ x, Unfailing (f x)) :
    Unfailing (xs.forM f) := by
  induction xs with
  | nil => exact .pure _
  | cons x xs ih => exact .bind (h x) fun _ => ih

end Unfailing

end Action

namespace Session

open LazyFields.Action

variable {s t : Session} {k : Kind} {name : String} {args : Args} {n : Nat}

/-- A change of the session does not fail. -/
theorem unfailing_modify (f : Session → Session) : Unfailing (modify f : Action PUnit) := by
  intro s e t h
  simp at h

/-- Looking at the session does not fail. -/
theorem unfailing_get : Unfailing (get : Action Session) := by
  intro s e t h
  simp at h

/-- Finding an instance either succeeds or has no answer. -/
theorem unfailing_getInstance (n : Nat) : Unfailing (getInstance n) := by
  refine .bind unfailing_get fun s => ?_
  split
  · exact .pure _
  · exact .stuck

/-- What a watcher registered does not fail, whatever comes of it. -/
theorem unfailing_runFollowUp (call : Performer) (f : FollowUp) :
    Unfailing (runFollowUp call f) := by
  cases f with
  | recompute n field =>
    refine .bind (unfailing_getInstance n) fun i => ?_
    split
    · exact .pure _
    · refine .bind (.attempt _) fun r => ?_
      split
      · exact .pure _
      · exact .ignore _
  | report n field watcher =>
    refine .bind (unfailing_getInstance n) fun i => ?_
    split
    · exact .pure _
    · exact unfailing_modify _

/-- Firing does not fail, since what watchers registered does not. -/
theorem unfailing_fire (call : Performer) (address : String) : Unfailing (fire call address) :=
  .bind unfailing_get fun _ => .bind (.forM (unfailing_runFollowUp call)) fun _ => .pure _

/-- Nor does firing as an operation. -/
theorem unfailing_perform_fire (fuel : Nat) (address : String) :
    Unfailing (perform fuel (.fire address)) := by
  cases fuel with
  | zero => exact .stuck
  | succ fuel => exact unfailing_fire (perform fuel) address

/-- Waking a field does not fail: what its computation answers is ignored. -/
theorem unfailing_wake (fuel n : Nat) (field : String) :
    Unfailing (wake (perform fuel) n field) := by
  refine .bind (unfailing_getInstance n) fun i => .bind unfailing_get fun s => ?_
  split
  · refine .bind (.ignore _) fun _ => .bind (unfailing_getInstance n) fun j => ?_
    split
    · exact .bind (unfailing_perform_fire fuel _) fun _ => .pure _
    · exact .pure _
  · exact .pure _

/-- **Once the id is known nothing fails any more.** -/
theorem unfailing_publish (fuel : Nat) (k : Kind) (n : Nat) (id : String) :
    Unfailing (publish (perform fuel) k n id) := by
  refine .bind (unfailing_modify _) fun _ => .bind unfailing_get fun s => ?_
  dsimp only
  split
  · exact .bind (unfailing_modify _) fun _ => .pure _
  · exact .bind (unfailing_modify _) fun _ => .bind (.forM (unfailing_wake fuel n)) fun _ => .pure _

/-! ## §3. Hooks that change nothing. -/

/-- The hooks of the kind leave the session alone: what runs before construction
changes nothing and runs no callback, and the id logic only reads static
fields. -/
structure SparedBy (s : Session) (k : Kind) (args : Args) : Prop where
  prepares : ∀ {fuel r t}, (prepare (perform fuel) k args).runOn s = some (r, t) →
    (prepare (performQuietly fuel) k args).runOn s = some (r, t) ∧ s.Spares t
  identifies : ∀ {logic}, k.idLogic = some logic →
    ∀ self number, (logic self number).Reads self.number fun f =>
      ∃ spec, k.info.field? f = some spec ∧ spec.isStatic = true

theorem Spares.refl (s : Session) : s.Spares s := ⟨rfl, rfl, id⟩

/-- A static field is read as it is. -/
theorem copies_readField_static {i : Instance} {spec : FieldSpec} {f : String}
    (hi : s.instance? n = some i) (hspec : i.kind.info.field? f = some spec)
    (hstatic : spec.isStatic = true) (call call' : Performer) :
    Copies (· = s) (readField call n f) (readField call' n f) fun _ t => t = s := by
  rintro _ rfl r t hrun
  cases hr : i.cache.result? f with
  | some r' =>
    rw [runOn_readField_of_result hi hspec hr] at hrun ⊢
    cases hrun
    exact ⟨rfl, rfl⟩
  | none =>
    rw [runOn_readField_of_missing hi hspec hstatic hr] at hrun ⊢
    cases hrun
    exact ⟨rfl, rfl⟩

/-- Both performers answer alike where static fields are read, and change nothing
there. -/
def ReadsAlike (call call' : Performer) : Prop :=
  ∀ ⦃s : Session⦄ ⦃n i f spec⦄, s.instance? n = some i → i.kind.info.field? f = some spec →
    spec.isStatic = true → Copies (· = s) (call (.field n f)) (call' (.field n f)) fun _ t => t = s

/-- Reading static fields, the quiet performer answers what the other one does. -/
theorem readsAlike_quietly (fuel : Nat) : ReadsAlike (perform fuel) (performQuietly fuel) := by
  intro s n i f spec hi hspec hstatic
  cases fuel with
  | zero =>
    intro _ _ r t hrun
    simp [perform] at hrun
  | succ fuel =>
    exact copies_performQuietly (fun _ _ => rfl) (copies_readField_static hi hspec hstatic _ _)

section ReadsAlike

variable {call call' : Performer} (hcall : ReadsAlike call call')

include hcall

/-- A program that reads static fields changes nothing. -/
theorem copies_reads {α : Type} {i : Instance} {p : Program α} (hi : s.instance? n = some i)
    (h : p.Reads n fun f => ∃ spec, i.kind.info.field? f = some spec ∧ spec.isStatic = true) :
    Copies (· = s) (p.run call) (p.run call') fun _ t => t = s := by
  induction h with
  | done r => exact .ofResult fun _ hs => hs
  | @ask f next hf _ ih =>
    obtain ⟨spec, hspec, hstatic⟩ := hf
    exact .attempt_bind (hcall hi hspec hstatic) fun r => ih r

/-- Choosing the id is written down, and changes nothing else. -/
theorem copies_chooseId_of_reads {i : Instance} (hi : s.instance? n = some i)
    (hid : ∀ {logic}, i.kind.idLogic = some logic → ∀ self number,
      (logic self number).Reads self.number fun f =>
        ∃ spec, i.kind.info.field? f = some spec ∧ spec.isStatic = true)
    (forced : Option String) :
    Copies (· = s) (chooseId call i.kind n forced) (chooseId call' i.kind n forced)
      fun _ t => ∃ journal, t = { s with journal } := by
  unfold chooseId
  split
  · exact .pure fun t ht => ⟨s.journal, ht⟩
  · exact .pure fun t ht => ⟨s.journal, ht⟩
  · next logic _ hlogic =>
    rintro s rfl r t hrun
    simp only [runOn_bind, runOn_note, runOn_get] at hrun ⊢
    obtain ⟨hcopy, rfl⟩ := copies_reads hcall (s := s.record (.identified i.kind.name)) hi
      (hid hlogic ⟨n, i.kind.name, ""⟩ _) _ rfl r t hrun
    exact ⟨hcopy, _, rfl⟩

end ReadsAlike

/-- A new instance stands at the end. -/
theorem instance?_allocated (t : Session) (k : Kind) (cache : Cache) :
    (t.allocated k cache).instance? t.instances.length = some ⟨k, "", cache, false⟩ :=
  List.getElem?_concat_length

/-- Choosing the id leaves all other instances alone. -/
theorem copies_chooseId_of_statics {cache : Cache} (h : s.SparedBy k args) (t : Session)
    (fuel : Nat) (forced : Option String) :
    Copies (· = t.allocated k cache) (chooseId (perform fuel) k t.instances.length forced)
      (chooseId (performQuietly fuel) k t.instances.length forced) fun _ u => t.Spares u := by
  have hchoose := copies_chooseId_of_reads (readsAlike_quietly fuel) (instance?_allocated t k cache)
    h.identifies forced
  refine hchoose.mono ?_
  rintro _ _ ⟨journal, rfl⟩
  refine ⟨rfl, rfl, fun {m i} hi => ?_⟩
  have hlt := (List.getElem?_eq_some_iff.1 hi).1
  exact (List.getElem?_append_left hlt).trans hi

/-! ## §4. The end of a call that fails. -/

variable {call : Performer} {passed given : Args} {cache : Cache} {forced : Option String}
  {e : Error} {u : Session}

/-- The call fails: there is no kind of the name, or the logic before
construction fails, or it passes on arguments that are refused, or these force
no id and the id logic fails. -/
inductive Fails (s : Session) (name : String) (args : Args) : Prop where
  | unknown (h : s.catalog.lookup? name = none) : Fails s name args
  | init {k : Kind} {fuel : Nat} {e : Error} {t : Session} (hk : s.catalog.lookup? name = some k)
      (h : (prepare (perform fuel) k args).runOn s = some (.error e, t)) : Fails s name args
  | arguments {k : Kind} {fuel : Nat} {passed : Args} {t : Session}
      (hk : s.catalog.lookup? name = some k)
      (hprepare : (prepare (perform fuel) k args).runOn s = some (.ok (.proceed passed), t))
      (h : k.Refuses s.config.engine passed) : Fails s name args
  | idLogic {k : Kind} {fuel : Nat} {passed : Args} {t u : Session} {cache : Cache} {e : Error}
      (hk : s.catalog.lookup? name = some k)
      (hprepare : (prepare (perform fuel) k args).runOn s = some (.ok (.proceed passed), t))
      (hfree : ∀ id, passed.get? idArgument ≠ some (.string id))
      (hcache : k.cacheOf s.config.engine t.now (passed.erase idArgument) = .ok cache)
      (h : (chooseId (perform fuel) k t.instances.length none).runOn (t.allocated k cache)
        = some (.error e, u)) : Fails s name args

/-- A kind that is known by the name is what the name leads to. -/
theorem get_of_lookup? (h : s.catalog.lookup? name = some k) : s.catalog.get name = .ok k := by
  simp only [Catalog.get, h]

/-- Arguments that are refused change nothing. -/
theorem runOn_construct_of_refuses (hkeyed : k.info.Keyed)
    (h : k.Refuses s.config.engine passed) :
    ∃ e, ∀ call, (construct call k passed).runOn s = some (.error e, s) := by
  cases htake : k.takeId passed with
  | error e =>
    refine ⟨e, fun call => ?_⟩
    simp only [construct, runOn_bind, runOn_ofResult, htake]
  | ok taken =>
    have hrest : taken.2 = passed.erase idArgument := takeId_rest htake
    rcases (Kind.refuses_iff hkeyed s.config.engine s.now).1 h with ⟨e, he⟩ | ⟨e, he⟩
    · simp [htake] at he
    · refine ⟨e, fun call => ?_⟩
      rw [← hrest] at he
      simp only [construct, runOn_bind, runOn_ofResult, htake, runOn_get, he]

/-- The instance is discarded if it gets no id. -/
theorem runOn_construct_of_error (htake : k.takeId passed = .ok (forced, given))
    (hcache : k.cacheOf s.config.engine s.now given = .ok cache)
    (hid : (chooseId call k s.instances.length forced).runOn (s.allocated k cache)
      = some (.error e, u)) :
    (construct call k passed).runOn s = some (.error e,
      u.modifyInstance s.instances.length fun i => { i with discarded := true }) := by
  simp only [construct, discard, runOn_bind, runOn_get, runOn_ofResult, htake, hcache,
    runOn_allocate, runOn_attempt, hid, Option.map_some, runOn_modify, runOn_throw]

/-- It is published if it gets one. -/
theorem runOn_construct_of_ok {id : String} (htake : k.takeId passed = .ok (forced, given))
    (hcache : k.cacheOf s.config.engine s.now given = .ok cache)
    (hid : (chooseId call k s.instances.length forced).runOn (s.allocated k cache)
      = some (.ok id, u)) :
    (construct call k passed).runOn s = (publish call k s.instances.length id).runOn u := by
  simp only [construct, runOn_bind, runOn_get, runOn_ofResult, htake, hcache, runOn_allocate,
    runOn_attempt, hid, Option.map_some]

/-- Without a text to force it, no id is forced. -/
theorem takeId_of_free (hfree : ∀ id, passed.get? idArgument ≠ some (.string id))
    (htake : k.takeId passed = .ok (forced, given)) : forced = none := by
  unfold Kind.takeId at htake
  split at htake
  · cases htake; rfl
  · cases htake; rfl
  · next id hid => exact absurd hid (hfree id)
  · simp at htake

/-- If no id is forced, no text was given to force it. -/
theorem free_of_takeId (htake : k.takeId passed = .ok (none, given)) (id : String) :
    passed.get? idArgument ≠ some (.string id) := by
  intro hid
  simp [Kind.takeId, hid] at htake

/-- Whatever logic does before construction, the engine stays. -/
theorem config_of_prepare {fuel : Nat} {r : Except Error Prepared}
    (hrun : (prepare (perform fuel) k args).runOn s = some (r, t)) : t.config = s.config :=
  keepsConfig_prepare (keepsConfig_perform fuel) k args s r t hrun

/-- Construction fails when the arguments are refused or the id logic fails. -/
theorem error_of_construct (hkeyed : k.info.Keyed) {fuel : Nat}
    (hrun : (construct (perform fuel) k passed).runOn s = some (.error e, t)) :
    k.Refuses s.config.engine passed ∨ ∃ cache u, k.takeId passed = .ok (none, passed.erase idArgument)
      ∧ k.cacheOf s.config.engine s.now (passed.erase idArgument) = .ok cache
      ∧ (chooseId (perform fuel) k s.instances.length none).runOn (s.allocated k cache)
        = some (.error e, u) := by
  by_cases hrefuses : k.Refuses s.config.engine passed
  · exact .inl hrefuses
  · right
    rw [Kind.refuses_iff hkeyed s.config.engine s.now, not_or] at hrefuses
    cases htake : k.takeId passed with
    | error e => exact absurd ⟨e, htake⟩ hrefuses.1
    | ok taken =>
      obtain ⟨forced, given⟩ := taken
      obtain rfl := takeId_rest htake
      cases hcache : k.cacheOf s.config.engine s.now (passed.erase idArgument) with
      | error e => exact absurd ⟨e, hcache⟩ hrefuses.2
      | ok cache =>
        cases hid : (chooseId (perform fuel) k s.instances.length forced).runOn
            (s.allocated k cache) with
        | none =>
          simp [construct, runOn_bind, htake, hcache, runOn_allocate, runOn_attempt, hid] at hrun
        | some p =>
          obtain ⟨r, u⟩ := p
          cases r with
          | ok id =>
            rw [runOn_construct_of_ok htake hcache hid] at hrun
            exact absurd hrun (unfailing_publish _ _ _ _ _ _ _)
          | error e' =>
            cases (runOn_construct_of_error htake hcache hid).symm.trans hrun
            -- a forced id is taken as it is, so it was the id logic that failed
            cases forced with
            | none => exact ⟨cache, u, rfl, rfl, hid⟩
            | some id => simp [chooseId] at hid

/-- A call fails where it is prepared or where its instance is constructed. -/
theorem error_of_create (hk : s.catalog.lookup? name = some k) {fuel : Nat}
    (hrun : (create (perform fuel) name args).runOn s = some (.error e, t)) :
    (prepare (perform fuel) k args).runOn s = some (.error e, t)
      ∨ ∃ passed u, (prepare (perform fuel) k args).runOn s = some (.ok (.proceed passed), u)
        ∧ (construct (perform fuel) k passed).runOn u = some (.error e, t) := by
  simp only [create, runOn_bind, runOn_get, get_of_lookup? hk, runOn_ofResult] at hrun
  cases hprepare : (prepare (perform fuel) k args).runOn s with
  | none => simp [hprepare] at hrun
  | some p =>
    rw [hprepare] at hrun
    obtain ⟨_ | ⟨passed | r⟩, u⟩ := p
    · cases hrun
      exact .inl rfl
    · exact .inr ⟨passed, u, rfl, hrun⟩
    · simp at hrun

/-- A call fails where it cannot be prepared. -/
theorem runOn_create_of_error (hk : s.catalog.lookup? name = some k)
    (hprepare : (prepare call k args).runOn s = some (.error e, t)) :
    (create call name args).runOn s = some (.error e, t) := by
  simp only [create, runOn_bind, runOn_get, get_of_lookup? hk, runOn_ofResult, hprepare]

/-- A call that is prepared constructs. -/
theorem runOn_create_of_proceed (hk : s.catalog.lookup? name = some k)
    (hprepare : (prepare call k args).runOn s = some (.ok (.proceed passed), t)) :
    (create call name args).runOn s = (construct call k passed).runOn t := by
  simp only [create, runOn_bind, runOn_get, get_of_lookup? hk, runOn_ofResult, hprepare]

/-- A call fails where the kind is not known. -/
theorem runOn_create_of_unknown (h : s.catalog.lookup? name = none) (call : Performer) :
    (create call name args).runOn s = some (.error (.unknownResource name), s) := by
  simp only [create, runOn_bind, runOn_get, Catalog.get, h, runOn_ofResult]

/-- **What is left of a construction that fails** is an instance that nobody
finds. -/
theorem spares_of_construct (hkeyed : k.info.Keyed) (hspared : s.SparedBy k args) {fuel : Nat}
    (hrun : (construct (perform fuel) k passed).runOn t = some (.error e, u)) :
    (construct (performQuietly fuel) k passed).runOn t = some (.error e, u) ∧ t.Spares u := by
  rcases error_of_construct hkeyed hrun with hrefuses | ⟨cache, v, htake, hcache, hid⟩
  · obtain ⟨e', hconstruct⟩ := runOn_construct_of_refuses (s := t) hkeyed hrefuses
    cases (hconstruct _).symm.trans hrun
    exact ⟨hconstruct _, .refl _⟩
  · obtain ⟨hquiet, hspares⟩ := copies_chooseId_of_statics hspared t fuel none _ rfl _ _ hid
    cases (runOn_construct_of_error htake hcache hid).symm.trans hrun
    have hfree : t.instance? t.instances.length = none := List.getElem?_eq_none (Nat.le_refl _)
    exact ⟨runOn_construct_of_error htake hcache hquiet, hspares.modifyInstance hfree _⟩

/-- **What is left of a call that fails** is nothing that anybody finds. -/
theorem spares_of_create (hkeyed : ∀ k, s.catalog.Has k → k.info.Keyed)
    (hspared : ∀ k, s.catalog.lookup? name = some k → s.SparedBy k args) {fuel : Nat}
    (hrun : (create (perform fuel) name args).runOn s = some (.error e, t)) :
    (create (performQuietly fuel) name args).runOn s = some (.error e, t) ∧ s.Spares t := by
  cases hk : s.catalog.lookup? name with
  | none =>
    cases (runOn_create_of_unknown hk _).symm.trans hrun
    exact ⟨runOn_create_of_unknown hk _, .refl s⟩
  | some k =>
    rcases error_of_create hk hrun with hprepare | ⟨passed, u, hprepare, hconstruct⟩
    · obtain ⟨hquiet, hspares⟩ := (hspared k hk).prepares hprepare
      exact ⟨runOn_create_of_error hk hquiet, hspares⟩
    · obtain ⟨hquiet, hspares⟩ := (hspared k hk).prepares hprepare
      have hkeyed := hkeyed k (Catalog.has_of_get (get_of_lookup? hk))
      obtain ⟨hquiet', hspares'⟩ := spares_of_construct hkeyed (hspared k hk) hconstruct
      exact ⟨(runOn_create_of_proceed hk hquiet).trans hquiet', hspares.trans hspares'⟩

/-- A call that fails has a reason. -/
theorem fails_of_create (hkeyed : ∀ k, s.catalog.Has k → k.info.Keyed) {fuel : Nat}
    (hrun : (create (perform fuel) name args).runOn s = some (.error e, t)) :
    s.Fails name args := by
  cases hk : s.catalog.lookup? name with
  | none => exact .unknown hk
  | some k =>
    have hkeyed := hkeyed k (Catalog.has_of_get (get_of_lookup? hk))
    rcases error_of_create hk hrun with hprepare | ⟨passed, u, hprepare, hconstruct⟩
    · exact .init hk hprepare
    · have hconfig := config_of_prepare hprepare
      rcases error_of_construct hkeyed hconstruct with hrefuses | ⟨cache, v, htake, hcache, hid⟩
      · rw [hconfig] at hrefuses
        exact .arguments hk hprepare hrefuses
      · rw [hconfig] at hcache
        exact .idLogic hk hprepare (free_of_takeId htake) hcache hid

/-- The reasons for which a call fails are reasons. -/
theorem error_of_fails (hkeyed : ∀ k, s.catalog.Has k → k.info.Keyed)
    (h : s.Fails name args) : ∃ fuel e t, s.run fuel (.create name args) = some (.error e, t) := by
  cases h with
  | unknown h => exact ⟨1, _, s, runOn_create_of_unknown h _⟩
  | init hk h => exact ⟨_ + 1, _, _, runOn_create_of_error hk h⟩
  | arguments hk hprepare h =>
    rw [← config_of_prepare hprepare] at h
    obtain ⟨e, hconstruct⟩ :=
      runOn_construct_of_refuses (hkeyed _ (Catalog.has_of_get (get_of_lookup? hk))) h
    exact ⟨_ + 1, e, _, (runOn_create_of_proceed hk hprepare).trans (hconstruct _)⟩
  | @idLogic k fuel passed t _ cache _ hk hprepare hfree hcache h =>
    have hcreate := runOn_create_of_proceed hk hprepare
    have hkeyed := hkeyed _ (Catalog.has_of_get (get_of_lookup? hk))
    rw [← config_of_prepare hprepare] at hcache
    refine ⟨fuel + 1, ?_⟩
    cases htake : k.takeId passed with
    | error e =>
      -- what should force the id is no text
      have hrefuses : k.Refuses t.config.engine passed :=
        (Kind.refuses_iff hkeyed t.config.engine t.now).2 (.inl ⟨e, htake⟩)
      obtain ⟨e', hconstruct⟩ := runOn_construct_of_refuses (s := t) hkeyed hrefuses
      exact ⟨e', t, hcreate.trans (hconstruct _)⟩
    | ok taken =>
      obtain ⟨forced, given⟩ := taken
      obtain rfl := takeId_rest htake
      obtain rfl := takeId_of_free hfree htake
      exact ⟨_, _, hcreate.trans (runOn_construct_of_error htake hcache h)⟩

/-- **A call fails for one of the four reasons, and then leaves no trace.**  Its
hooks are to change nothing; apart from that the session is arbitrary, and so are
the engine for regular expressions and the catalog, whose kinds come from schemas.
If the call fails, then it has run no callback, and nothing is published, watched or
changed, though there may be a new instance that nobody finds. -/
theorem fails_iff_traceless (hcatalog : s.catalog.Assembled)
    (hspared : ∀ k, s.catalog.lookup? name = some k → s.SparedBy k args) :
    (∀ fuel e t, s.run fuel (.create name args) = some (.error e, t) →
      (performQuietly fuel (.create name args)).runOn s = some (.error e, t) ∧ s.Spares t)
    ∧ ((∃ fuel e t, s.run fuel (.create name args) = some (.error e, t))
      ↔ s.Fails name args) := by
  -- without depth there is no answer
  have hdepth : ∀ {fuel e t}, s.run fuel (.create name args) = some (.error e, t) →
      ∃ depth, fuel = depth + 1
        ∧ (create (perform depth) name args).runOn s = some (.error e, t) := by
    rintro (_ | depth) e t hrun
    · simp [run, perform] at hrun
    · exact ⟨depth, rfl, hrun⟩
  refine ⟨fun fuel e t hrun => ?_, ⟨fun ⟨fuel, e, t, hrun⟩ => ?_, error_of_fails hcatalog.keyed⟩⟩
  · obtain ⟨depth, rfl, hcreate⟩ := hdepth hrun
    obtain ⟨hquiet, hspares⟩ := spares_of_create hcatalog.keyed hspared hcreate
    rw [runOn_performQuietly]
    exact ⟨hquiet, hspares⟩
  · obtain ⟨depth, -, hcreate⟩ := hdepth hrun
    exact fails_of_create hcatalog.keyed hcreate

/-! ## §5. Examples. -/

/-- Logic before construction that asks nothing changes nothing. -/
theorem prepares_of_passive (h : ∀ {logic}, k.init = some logic →
    ∀ args number, (logic args number).IsPassive) {fuel : Nat} {r : Except Error Prepared}
    (hrun : (prepare (perform fuel) k args).runOn s = some (r, t)) :
    (prepare (performQuietly fuel) k args).runOn s = some (r, t) ∧ s.Spares t := by
  unfold prepare at hrun ⊢
  split at hrun
  · cases hrun
    exact ⟨rfl, .refl s⟩
  · next logic hlogic =>
    simp only [runOn_bind, runOn_note, runOn_get] at hrun ⊢
    obtain ⟨r', hpassive⟩ := h hlogic args ((s.record (.initialized k.name args)).initCalls k.name)
    rw [hpassive] at hrun ⊢
    cases hrun
    exact ⟨rfl, rfl, rfl, id⟩

section Example

open LazyFields.Sample (after schema withG)

/-- Logic that passes on the arguments. -/
def passing : InitLogic := fun args _ => .done (.ok (.proceed args))

/-- Id logic that knows one text only. -/
def knowing : IdLogic := fun self _ => .ask (.field self.number "s") fun r => .done <|
  match r with
  | .ok (.string "v") => .ok "v"
  | _ => .error (.failure "no id")

def withPassing : Catalog :=
  (withG.modifyKind "x" fun k => .ok (k.withInit passing)).toOption.getD ∅

def withKnowing : Catalog :=
  (withPassing.modifyKind "x" fun k => .ok (k.withId knowing)).toOption.getD ∅

/-- The catalog of the example is assembled from a schema. -/
theorem assembled_withKnowing : withKnowing.Assembled := by
  have hinit : withG.modifyKind "x" (fun k => .ok (k.withInit passing)) = .ok withPassing := by rfl
  have hid : withPassing.modifyKind "x" (fun k => .ok (k.withId knowing)) = .ok withKnowing := by
    rfl
  have hloaded := Catalog.Assembled.empty.load Sample.accepted.schema
  exact ((hloaded.bind Sample.bind_withG).withInit hinit).withId hid

/-- Somebody listens to an instance that has an id. -/
def known : Session :=
  after (after (.new withKnowing ⟨1, 1, false, fun _ => none⟩ 0)
    (.create "x" (Table.ofList [("s", .string "v"), ("t", .null)]))) (.watch 0 "s" "w")

/-- Arguments for an instance that gets none. -/
def unknownArgs : Args := Table.ofList [("s", .string "u"), ("t", .null)]

/-- Its hooks leave the session alone: one asks nothing, the other reads a static
field. -/
theorem sparedBy_known : ∀ k, known.catalog.lookup? "x" = some k →
    known.SparedBy k unknownArgs := by
  intro k hk
  have hkind : (known.catalog.lookup? "x").map (fun k => (k.init, k.idLogic))
      = some (some passing, some knowing) := by rfl
  have hfield : (known.catalog.lookup? "x").map (fun k => k.info.field? "s")
      = some (some (labelField "s" true [])) := by rfl
  rw [hk, Option.map_some, Option.some.injEq] at hkind hfield
  obtain ⟨hinit, hid⟩ := Prod.mk.inj hkind
  constructor
  · refine prepares_of_passive fun hlogic args number => ?_
    cases hinit.symm.trans hlogic
    exact ⟨_, rfl⟩
  · intro logic hlogic self number
    cases hid.symm.trans hlogic
    exact .ask ⟨_, hfield, rfl⟩ fun _ => .done _

/-- The call of the example fails since its id logic does, with all the theorem
says. -/
theorem fails_iff_traceless_known : known.catalog.Assembled
    ∧ (∀ k, known.catalog.lookup? "x" = some k → known.SparedBy k unknownArgs)
    ∧ ∃ t, known.run 20 (.create "x" unknownArgs) = some (.error (.failure "no id"), t)
      ∧ (performQuietly 20 (.create "x" unknownArgs)).runOn known
        = some (.error (.failure "no id"), t)
      ∧ known.Spares t ∧ known.Fails "x" unknownArgs := by
  have hrun : known.run 20 (.create "x" unknownArgs)
      = some (.error (.failure "no id"), after known (.create "x" unknownArgs)) :=
    Sample.run_eq_after (by decide +kernel)
  obtain ⟨htraceless, hfails⟩ :=
    fails_iff_traceless (s := known) assembled_withKnowing sparedBy_known
  obtain ⟨hquiet, hspares⟩ := htraceless _ _ _ hrun
  exact ⟨assembled_withKnowing, sparedBy_known, _, hrun, hquiet, hspares,
    hfails.1 ⟨_, _, _, hrun⟩⟩

/-- A resource with one static field, of the name of the argument that forces
the id. -/
def reserving : Source.File where
  imports := []
  options := ∅
  packs := ∅
  resources := [⟨[], false, false, "r", none, none,
    [⟨[], .field ⟨"__id", none, some (.named "string")⟩, ⟨2, 3⟩⟩], ⟨1, 1⟩⟩]

def reserved : Session :=
  .new (Catalog.ofSchema (reserving.schema.toOption.getD ∅)) ⟨1, 1, false, fun _ => none⟩ 0

def reservedArgs : Args := Table.ofList [(idArgument, .string "x")]

def reservedKind : Kind := (reserved.catalog.lookup? "r").getD default

/-- **The argument that forces the id is never given to a field.**  The kind is
known and has no logic, the argument that forces the id is a text, there is no
other one, and every static field has an argument of its name; but the one
static field of the kind has the name of that argument, and so it gets no
value. -/
theorem reserved_argument_missing : reserved.catalog.Assembled
    ∧ reserved.catalog.lookup? "r" = some reservedKind
    ∧ reservedKind.init = none ∧ reservedKind.idLogic = none
    ∧ reservedArgs.get? idArgument = some (.string "x")
    ∧ (∀ arg, arg ≠ idArgument → reservedArgs.get? arg = none)
    ∧ (∀ field spec, reservedKind.info.field? field = some spec → spec.isStatic = true →
      (reservedArgs.get? field).isSome = true)
    ∧ reserved.run 20 (.create "r" reservedArgs)
      = some (.error (.missingField "r" idArgument), reserved) := by
  have hschema : reserving.schema = .ok (reserving.schema.toOption.getD ∅) := by rfl
  refine ⟨.load .empty hschema, by rfl, by rfl, by rfl, by rfl, ?_, ?_, by rfl⟩
  · intro arg hne
    cases h : reservedArgs.get? arg with
    | none => rfl
    | some v =>
      have hmem : (arg, v) ∈ [(idArgument, Value.string "x")] := Table.get?_eq_some_iff_mem.1 h
      simp only [List.mem_singleton, Prod.mk.injEq] at hmem
      exact absurd hmem.1 hne
  · intro field spec hspec _
    have hkeys : ∀ e ∈ reservedKind.info.fields.entries, e.1 = idArgument := by decide +kernel
    obtain rfl := hkeys _ (Table.get?_eq_some_iff_mem.1 hspec)
    rfl

end Example

end Session

end LazyFields
