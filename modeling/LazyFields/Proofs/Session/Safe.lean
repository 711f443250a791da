/-
  LazyFields.Proofs.Session.Safe
  ────────────────────────────────
  **EVERY OPERATION KEEPS THE CACHES WELL TYPED.**

  Each function of a session is safe when the operations that it performs
  within itself are: one lemma for each, in the order in which they are
  defined.  Only three write to a cache:

    · `conclude` stores a checked value or a failure in a computed field
      (`safeAt_conclude`)
    · `construct` fills the cache of a new instance with checked arguments
      (`Kind.holds_cacheOf`)
    · `expire` forgets entries of computed fields (`safe_expire`)

  The one operation that is not safe stores a value without a check.
-/
import LazyFields.Proofs.Session.WellTyped

namespace LazyFields

open LazyFields.Action (Safe SafeAt)

/-- The performer performs safely what does not store unchecked. -/
def Performer.Safe (call : Performer) : Prop := ∀ op : Operation, ¬ op.Stores → (call op).Safe

/-- Logic that stores nothing is safe. -/
theorem Program.run_safe {α : Type} {call : Performer} (h : call.Safe) {p : Program α}
    (hp : p.StoresNothing) : (p.run call).Safe := by
  induction p with
  | done r => exact .ofResult r
  | ask op next ih => exact .bind (.attempt (h op hp.1)) fun answer => ih answer (hp.2 answer)

namespace Session

variable {call : Performer} {s : Session} {n : Nat} {field : String}

/-! ## §1. Watching dependencies. -/

/-- Finding what a reference leads to is safe. -/
theorem safe_targetOf (n : Nat) (reference : String) : (targetOf n reference).Safe := by
  unfold targetOf
  split
  · exact .bind (safe_getInstance n) fun _ => .pure _
  · exact .bind (safe_requireLive n) fun _ => .bind safe_get fun _ =>
      .bind (.ofResult _) fun _ => .pure _

/-- Following a target is safe: watches do not count. -/
theorem safe_follow (h : call.Safe) (target : Target) (n : Nat) (field : String) :
    (follow call target n field).Safe := by
  unfold follow
  refine .bind (safe_getInstance n) fun i => .get_bind fun s hs => ?_
  refine .andThen (safeAt_set hs rfl rfl) fun _ => ?_
  split
  · exact .pure ()
  · split
    · exact .pure ()
    · exact .bind (h _ id) fun _ => .ignore (h _ id)

/-- Registering a field follows its references one by one. -/
theorem safe_register (h : call.Safe) (n : Nat) (field : String) : (register call n field).Safe := by
  unfold register
  refine .bind (safe_declared n field) fun info => ?_
  split
  · exact .pure ()
  · exact .bind (safe_requireLive n) fun _ =>
      .forM (fun reference => .bind (safe_targetOf n reference) fun target =>
        safe_follow h target n field) _

/-! ## §2. Computing. -/

/-- Gathering is safe since computing and reading are. -/
theorem safe_gather (h : call.Safe) (n : Nat) (refs : List String) : (gather call n refs).Safe := by
  induction refs with
  | nil => exact .pure _
  | cons reference refs ih =>
    refine .bind (.attempt (safe_targetOf n reference)) fun target => ?_
    obtain e | ⟨_ | source, field, address⟩ := target
    · exact .pure _
    · exact .pure _
    · refine .bind (.attempt (.bind (h _ id) fun _ => h _ id)) fun r => ?_
      split
      · exact .pure _
      · exact .pure _
      · refine .bind ih fun gathered => ?_
        split
        · exact .pure _
        · exact .pure _

/-- Giving a claim back with an error is safe. -/
theorem safe_abandon (n : Nat) (field : String) (e : Error) : (abandon n field e).Safe :=
  .bind (safe_releaseField n field) fun _ => .throw e

/-- **What is stored of a computation fits its field:** a value of its type, or
a failure that is not the signal. -/
theorem safeAt_conclude (hs : s.WellTyped) {spec : FieldSpec} (hspec : s.Declares n field spec)
    (hcomputed : spec.isStatic = false) {result : Except Error Value}
    (hresult : ∀ v, result = .ok v → v.matchesType spec.type = true) :
    (conclude n field result).SafeAt s := by
  unfold conclude
  refine SafeAt.bind (safe_get s hs) fun x t hrun _ _ => ?_
  cases hrun
  split
  · next v =>
    exact safeAt_storeEntry hs hspec hcomputed (Entry.fits_ofValue (hresult v rfl) _)
  · exact safe_abandon n field .notReady s hs
  · next e hsignal =>
    have hfits : (Entry.ofError e s.now).Fits spec.type :=
      Entry.fits_ofError (fun heq => hsignal heq) _ _
    exact SafeAt.andThen (safeAt_storeEntry hs hspec hcomputed hfits) fun _ => .throw e

/-- A result that passes its check has the type of the field. -/
theorem matchesType_of_checkResult {kind : String} {type : FieldType} {v w : Value}
    (h : checkResult kind field type v = .ok w) : w.matchesType type = true := by
  unfold checkResult at h
  split at h
  · next hmatches =>
    cases h
    exact hmatches
  · simp at h

/-- Logic is run and its result checked, so what is stored has the type of the
field. -/
theorem safeAt_runLogic (h : call.Safe) (hs : s.WellTyped) {spec : FieldSpec}
    (hspec : s.Declares n field spec) (hcomputed : spec.isStatic = false) (values : List Value) :
    (runLogic call n spec field values).SafeAt s := by
  unfold runLogic
  refine SafeAt.bind (safe_getInstance n s hs) fun i t hrun _ _ => ?_
  obtain ⟨hi, rfl⟩ := instance?_of_runOn hrun
  split
  · exact safeAt_conclude hs hspec hcomputed fun v hv => by simp at hv
  · next logic hlogic =>
    have hprogram := (hs.sound hi).compute hlogic
    refine SafeAt.bind (safe_note _ _ hs) fun _ u _ hu hext => ?_
    refine SafeAt.bind (safe_get u hu) fun x w hget hw hext' => ?_
    refine SafeAt.bind (SafeAt.attempt (Program.run_safe h (hprogram _ _ _) w hw))
      fun result z _ hz hext'' => ?_
    -- the logic may have done anything, but the field is declared as before
    have hthere := ((hspec.extend hext).extend hext').extend hext''
    refine safeAt_conclude hz hthere hcomputed fun v hv => ?_
    cases result with
    | error e => simp [Except.bind] at hv
    | ok w => exact matchesType_of_checkResult hv

/-- Computing a field is safe: static fields are left alone, the others get what
logic answers. -/
theorem safe_computeField (h : call.Safe) (n : Nat) (field : String) (force : Bool) :
    (computeField call n field force).Safe := by
  intro s hs
  unfold computeField
  refine SafeAt.bind (safe_declared n field s hs) fun spec t hrun _ _ => ?_
  obtain ⟨hspec, rfl⟩ := declares_of_runOn hrun
  split
  · exact Safe.pure () _ hs
  · next hstatic =>
    have hcomputed : spec.isStatic = false := by simpa using hstatic
    refine SafeAt.bind (safe_claim n field force _ hs) fun claim u _ hu hext => ?_
    cases claim with
    | ready e => exact Safe.pure () u hu
    | busy => exact Safe.throw _ u hu
    | acquired =>
      refine SafeAt.bind (safe_gather h n spec.refs u hu) fun gathered w hgathered hw hext' => ?_
      have hthere := (hspec.extend hext).extend hext'
      cases gathered with
      | values vs => exact safeAt_runLogic h hw hthere hcomputed vs
      | blocked e => exact safe_abandon n field e w hw
      | failed e => exact safeAt_conclude hw hthere hcomputed fun v hv => by simp at hv

/-! ## §3. Reading. -/

/-- Reading a field is safe. -/
theorem safe_readField (h : call.Safe) (n : Nat) (field : String) :
    (readField call n field).Safe := by
  unfold readField
  refine .bind (safe_declared n field) fun info => .bind (safe_cached? n field) fun cached => ?_
  cases cached with
  | some r => exact .ofResult r
  | none =>
    refine .bind (safe_getInstance n) fun i => ?_
    split
    · exact .throw _
    · split
      · exact .throw _
      · refine .bind (.attempt (h _ id)) fun computed => ?_
        split
        · exact .throw _
        · refine .bind (safe_cached? n field) fun cached => ?_
          cases cached with
          | none => exact .throw _
          | some r =>
            refine .bind safe_get fun s => ?_
            split
            · exact .bind (h _ id) fun _ => .ofResult r
            · exact .ofResult r

/-- Resolving a field is safe. -/
theorem safe_resolveField (h : call.Safe) (n : Nat) (field : String) :
    (resolveField call n field).Safe := by
  unfold resolveField
  refine .bind (h _ id) fun _ => .bind (.attempt (h _ id)) fun computed => ?_
  split
  · exact .throw _
  · exact h _ id

/-- Resolving many instances is safe. -/
theorem safe_resolveAll (h : call.Safe) (ns : List Nat) (field : String) (failFast : Bool) :
    (resolveAll call ns field failFast).Safe := by
  unfold resolveAll
  refine .bind (.mapM (fun n => .attempt (h (.resolve n field) id)) ns) fun results => ?_
  dsimp only
  split
  · exact .throw _
  · exact .pure results

/-- Trying again is safe. -/
theorem safe_retryField (h : call.Safe) (n : Nat) (field : String) (retries : Nat) :
    (retryField call n field retries).Safe := by
  induction retries with
  | zero => exact h _ id
  | succ retries ih =>
    refine .bind (.attempt (h _ id)) fun r => ?_
    split
    · exact ih
    · exact .ofResult _

/-! ## §4. Triggering and watching. -/

/-- What a watcher registered is safe. -/
theorem safe_runFollowUp (h : call.Safe) (followUp : FollowUp) :
    (runFollowUp call followUp).Safe := by
  cases followUp with
  | report n field watcher =>
    refine .bind (safe_getInstance n) fun i => ?_
    split
    · exact .pure ()
    · exact safe_note _
  | recompute n field =>
    refine .bind (safe_getInstance n) fun i => ?_
    split
    · exact .pure ()
    · refine .bind (.attempt (h _ id)) fun computed => ?_
      split
      · exact .pure ()
      · exact .ignore (h _ id)

/-- Firing is safe. -/
theorem safe_fire (h : call.Safe) (address : String) : (fire call address).Safe :=
  .bind safe_get fun _ => .bind (.forM (safe_runFollowUp h) _) fun _ => .pure _

/-- Triggering is safe. -/
theorem safe_trigger (h : call.Safe) (n : Nat) (field : String) : (trigger call n field).Safe := by
  unfold trigger
  split
  · exact .throw _
  · refine .bind (safe_getInstance n) fun i => ?_
    split
    · exact .bind (h _ id) fun _ => .pure _
    · exact .bind (h _ id) fun _ => .pure _
    · exact .throw _
    · refine .bind (h _ id) fun _ => .bind (safe_getInstance n) fun i => ?_
      split
      · exact .bind (h _ id) fun _ => .pure _
      · exact .pure ()

/-- Watching a field is safe. -/
theorem safe_watchField (h : call.Safe) (n : Nat) (field watcher : String) :
    (watchField call n field watcher).Safe := by
  unfold watchField
  refine .bind (safe_declared n field) fun _ => .bind (safe_getInstance n) fun i =>
    .get_bind fun s hs => .andThen (safeAt_set hs rfl rfl) fun _ => ?_
  split
  · exact .pure ()
  · split
    · refine .bind (h _ id) fun _ => .bind (.attempt (h _ id)) fun computed => ?_
      split
      · exact .pure ()
      · exact safe_runFollowUp h _
    · refine .bind (safe_cached? n field) fun cached => ?_
      split
      · exact safe_note _
      · exact .pure ()

/-! ## §5. Construction. -/

end Session

/-! ## §5. The first cache. -/

namespace Kind

variable {k : Kind} {engine : PatternEngine} {now : Int} {args : Args} {cache : Cache}

/-- Null has every type. -/
theorem matchesType_null (type : FieldType) : Value.null.matchesType type = true := by
  cases type <;> rfl

/-- An argument that passes the check fits its field. -/
theorem matchesType_of_checkArgument {arg : String} {v : Value} {u : Unit}
    (h : k.checkArgument engine arg v = .ok u) :
    ∃ spec, k.info.field? arg = some spec ∧ v.matchesType spec.type = true := by
  unfold checkArgument at h
  split at h
  · simp at h
  · next spec hspec =>
    refine ⟨spec, hspec, ?_⟩
    split at h
    · next hnull =>
      cases v with
      | null => exact matchesType_null _
      | _ => simp [Value.isNull] at hnull
    · split at h
      · simp at h
      · next hmatches => simpa using hmatches

/-- Arguments that are all stored are of the types of their fields. -/
theorem checked_of_foldlM : ∀ {es : List (String × Value)} {c out : Cache},
    es.foldlM (fun (c : Cache) e => do
      k.checkArgument engine e.1 e.2
      .ok (c.store e.1 (Entry.ofValue e.2 now))) c = .ok out →
    ∀ e ∈ es, ∃ spec, k.info.field? e.1 = some spec ∧ e.2.matchesType spec.type = true := by
  intro es
  induction es with
  | nil => simp
  | cons e es ih =>
    intro c out h
    rw [List.foldlM_cons] at h
    cases hcheck : k.checkArgument engine e.1 e.2 with
    | error err => simp [hcheck, Bind.bind, Except.bind] at h
    | ok u =>
      simp only [hcheck, Bind.bind, Except.bind] at h
      exact List.forall_mem_cons.2 ⟨matchesType_of_checkArgument hcheck, ih h⟩

/-- Every argument of an instance fits its field. -/
theorem matchesType_of_cacheOf (h : k.cacheOf engine now args = .ok cache) {f : String} {v : Value}
    (hv : args.get? f = some v) :
    ∃ spec, k.info.field? f = some spec ∧ v.matchesType spec.type = true :=
  checked_of_foldlM (foldlM_of_cacheOf h).1 (f, v) (Table.get?_eq_some_iff_mem.1 hv)

/-- **The first cache of an instance is one that its kind holds.** -/
theorem holds_cacheOf (hk : k.Sound) (h : k.cacheOf engine now args = .ok cache) : k.Holds cache := by
  obtain ⟨haccepts, hslot⟩ := cacheOf_sound hk.name h
  have hget : ∀ f, cache.get? f = (args.get? f).map fun v => Entry.ofValue v now := by
    intro f
    rw [Cache.get?, hslot]
    cases args.get? f <;> rfl
  constructor
  · intro f e he
    rw [hget] at he
    obtain ⟨v, hv, rfl⟩ := Option.map_eq_some_iff.1 he
    obtain ⟨spec, hspec, hmatches⟩ := matchesType_of_cacheOf h hv
    exact ⟨spec, hspec, Entry.fits_ofValue hmatches now⟩
  · intro f spec hspec hstatic
    obtain ⟨v, hv⟩ := haccepts.given hspec hstatic
    refine ⟨Entry.ofValue v now, ?_, rfl⟩
    rw [hget, hv, Option.map_some]

end Kind

/-! ## §6. Construction. -/

namespace Session

variable {call : Performer} {s : Session} {n : Nat} {k : Kind}

/-- What runs before construction is safe. -/
theorem safe_prepare (h : call.Safe) (hk : k.Sound) (args : Args) :
    (prepare call k args).Safe := by
  unfold prepare
  split
  · exact .pure _
  · next logic hinit =>
    exact .bind (safe_note _) fun _ => .bind safe_get fun _ =>
      Program.run_safe h (hk.init hinit _ _)

/-- An instance is added with a cache that its kind holds. -/
theorem WellTyped.allocate (hs : s.WellTyped) (hk : s.catalog.Has k) {cache : Cache}
    (hcache : k.Holds cache) :
    ({ s with instances := s.instances ++ [⟨k, "", cache, false⟩] } : Session).WellTyped
      ∧ s.Extends { s with instances := s.instances ++ [⟨k, "", cache, false⟩] } := by
  constructor
  · refine ⟨hs.catalog, ?_⟩
    intro m i hi
    unfold instance? at hi
    rcases Nat.lt_trichotomy m s.instances.length with hlt | heq | hgt
    · rw [List.getElem?_append_left hlt] at hi
      exact hs.instances hi
    · subst heq
      rw [List.getElem?_concat_length] at hi
      cases hi
      exact ⟨hk, hcache⟩
    · rw [List.getElem?_eq_none (by simp; omega)] at hi
      simp at hi
  · refine ⟨rfl, ?_⟩
    intro m i hi
    refine ⟨i, ?_, rfl⟩
    unfold instance? at hi ⊢
    rw [List.getElem?_append_left (List.getElem?_eq_some_iff.1 hi).1]
    exact hi

/-- A new instance keeps the session well-typed if its first cache is. -/
theorem safeAt_allocate (hs : s.WellTyped) (hk : s.catalog.Has k) {cache : Cache}
    (hcache : k.Holds cache) : (allocate k cache).SafeAt s := by
  refine SafeAt.bind (safe_get s hs) fun x t hrun _ _ => ?_
  cases hrun
  exact SafeAt.andThen (.of_runOn (runOn_set _) (hs.allocate hk hcache)) fun _ => .pure _

/-- What an instance holds is left alone. -/
theorem safe_modifyInstance {f : Instance → Instance} (hkind : ∀ i, (f i).kind = i.kind)
    (hcache : ∀ i, (f i).cache = i.cache) (n : Nat) :
    (modify (·.modifyInstance n f) : Action PUnit).Safe :=
  .of_runOn fun _ hs => ⟨_, _, runOn_modify _, hs.modifyInstance fun i hi =>
    ⟨hkind i, (hcache i).symm ▸ (hs.instances hi).2⟩⟩

/-- Discarding an instance does not change its kind or cache. -/
theorem safe_discard (n : Nat) : (discard n).Safe := by
  refine safe_modifyInstance ?_ ?_ n
  all_goals
    intro i
    rfl

/-- Choosing the id is safe. -/
theorem safe_chooseId (h : call.Safe) (hk : k.Sound) (n : Nat) (forced : Option String) :
    (chooseId call k n forced).Safe := by
  unfold chooseId
  split
  · exact .pure _
  · exact .pure _
  · next logic hlogic =>
    exact .bind (safe_note _) fun _ => .bind safe_get fun _ =>
      Program.run_safe h (hk.idLogic hlogic _ _)

/-- Waking a field is safe. -/
theorem safe_wake (h : call.Safe) (n : Nat) (field : String) : (wake call n field).Safe := by
  unfold wake
  refine .bind (safe_getInstance n) fun i => .bind safe_get fun s => ?_
  split
  · refine .bind (.ignore (.bind (h _ id) fun _ => h _ id)) fun _ =>
      .bind (safe_getInstance n) fun i => ?_
    split
    · exact .bind (h _ id) fun _ => .pure _
    · exact .pure ()
  · exact .pure ()

/-- Publishing an instance is safe. -/
theorem safe_publish (h : call.Safe) (k : Kind) (n : Nat) (id : String) :
    (publish call k n id).Safe := by
  have hname : (modify (·.modifyInstance n fun i => { i with id }) : Action PUnit).Safe := by
    refine safe_modifyInstance ?_ ?_ n
    all_goals
      intro i
      rfl
  unfold publish
  refine .bind hname fun _ => .get_bind fun s hs => ?_
  dsimp only
  split
  · exact SafeAt.andThen (safe_discard n s hs) fun _ => .pure _
  · exact SafeAt.andThen (safeAt_set hs rfl rfl) fun _ =>
      .bind (.forM (safe_wake h n) _) fun _ => .pure _

/-- Construction is safe: the first cache holds checked values only. -/
theorem safeAt_construct (h : call.Safe) (hs : s.WellTyped) (hk : s.catalog.Has k) (args : Args) :
    (construct call k args).SafeAt s := by
  have hsound := hs.catalog.of_has hk
  unfold construct
  refine SafeAt.bind (Safe.ofResult _ s hs) fun taken t _ ht hext => ?_
  refine SafeAt.bind (safe_get t ht) fun x u _ hu hext' => ?_
  refine SafeAt.bind (Safe.ofResult _ u hu) fun cache w hcache hw hext'' => ?_
  have hholds : k.Holds cache := by
    rw [Action.runOn_ofResult] at hcache
    exact k.holds_cacheOf hsound (congrArg Prod.fst (Option.some.inj hcache))
  have hthere : w.catalog.Has k := by
    rw [hext''.catalog, hext'.catalog, hext.catalog]
    exact hk
  refine SafeAt.andThen (safeAt_allocate hw hthere hholds) fun n => ?_
  refine .bind (.attempt (safe_chooseId h hsound n _)) fun chosen => ?_
  cases chosen with
  | ok id => exact safe_publish h k n id
  | error e => exact .bind (safe_discard n) fun _ => .throw e

/-- Creating an instance is safe. -/
theorem safe_create (h : call.Safe) (kind : String) (args : Args) :
    (create call kind args).Safe := by
  refine .get_bind fun s hs => ?_
  refine SafeAt.bind (Safe.ofResult _ s hs) fun k t hget ht hext => ?_
  have hk : t.catalog.Has k := by
    rw [Action.runOn_ofResult] at hget
    rw [hext.catalog]
    exact Catalog.has_of_get (congrArg Prod.fst (Option.some.inj hget))
  have hprepare := safe_prepare h (ht.catalog.of_has hk) args
  refine SafeAt.bind (hprepare t ht) fun prepared u _ hu hext' => ?_
  cases prepared with
  | existing r => exact Safe.pure r u hu
  | proceed args => exact safeAt_construct h hu (hext'.catalog ▸ hk) args

/-! ## §7. Finding and forgetting. -/

/-- Finding an instance by its id is safe. -/
theorem safe_lookup (kind id : String) : (lookup kind id).Safe :=
  .bind safe_get fun _ => .bind (.ofResult _) fun _ => .pure _

/-- Listing a kind is safe. -/
theorem safe_listKind (kind : String) : (listKind kind).Safe :=
  .bind safe_get fun _ => .bind (.ofResult _) fun _ => .pure _

/-- Searching a list of instances is safe. -/
theorem safe_firstWhere (h : call.Safe) (field : String) (value : Value) (ns : List Nat) :
    (firstWhere call field value ns).Safe := by
  induction ns with
  | nil => exact .pure none
  | cons n ns ih =>
    refine .bind (.attempt (h _ id)) fun r => ?_
    cases r with
    | error e => exact ih
    | ok v =>
      dsimp only
      split
      · exact .pure _
      · exact ih

/-- Searching a kind is safe. -/
theorem safe_findWhere (h : call.Safe) (kind field : String) (value : Value) :
    (findWhere call kind field value).Safe := by
  refine .bind safe_get fun _ => .bind (.ofResult _) fun ns =>
    .bind (safe_firstWhere h field value ns) fun found => ?_
  cases found with
  | none => exact .throw _
  | some n => exact .bind safe_get fun _ => .pure _

/-- An instance forgets computed fields only. -/
theorem holds_expireInstance (time : Int) {i : Instance} (h : i.kind.Holds i.cache) :
    i.kind.Holds (expireInstance time i).2.cache := by
  refine h.forget fun f => ?_
  rcases slot?_foldl_forget (i.cache.stored.filter (isStaleField i time)) f i.cache
    with hsame | ⟨hmem, hnone⟩
  · exact .inl (congrArg (·.bind Slot.seen) hsame)
  · have hstale := (List.mem_filter.1 hmem).2
    rw [isStaleField, Bool.and_eq_true] at hstale
    obtain ⟨spec, hspec, hcomputed⟩ := (Option.any_eq_true _ _).1 hstale.1
    refine .inr ⟨?_, spec, hspec, by simpa using hcomputed⟩
    show ((List.foldl Cache.forget i.cache _).slot? f).bind Slot.seen = none
    rw [hnone]
    rfl

/-- Expiry only takes entries away. -/
theorem WellTyped.expire (hs : s.WellTyped) (time : Int) :
    (s.mapPublished fun i => (expireInstance time i).2).WellTyped
      ∧ s.Extends (s.mapPublished fun i => (expireInstance time i).2) := by
  unfold mapPublished
  generalize s.published.values = ns
  induction ns generalizing s with
  | nil => exact ⟨hs, .refl s⟩
  | cons n ns ih =>
    rw [List.foldl_cons]
    have hstep : ∀ i, s.instance? n = some i → (expireInstance time i).2.kind = i.kind
        ∧ i.kind.Holds (expireInstance time i).2.cache :=
      fun i hi => ⟨rfl, holds_expireInstance time (hs.instances hi).2⟩
    obtain ⟨ht, hext⟩ := hs.modifyInstance (f := fun i => (expireInstance time i).2) hstep
    obtain ⟨hu, hext'⟩ := ih ht
    exact ⟨hu, hext.trans hext'⟩

/-- So expiry is safe. -/
theorem safe_expire (age : Nat) : (expire age).Safe := by
  refine .get_bind fun s hs => ?_
  exact SafeAt.andThen (.of_runOn (runOn_set _) (hs.expire _)) fun _ => .pure _

/-! ## §8. Operations. -/

/-- **An operation is safe when those within it are,** unless it stores a value
without a check. -/
theorem safe_step (h : call.Safe) : Performer.Safe (step call) := by
  intro op hop
  cases op with
  | live n => exact safe_requireLive n
  | register n field => exact safe_register h n field
  | compute n field => exact safe_computeField h n field false
  | recompute n field => exact safe_computeField h n field true
  | field n field => exact safe_readField h n field
  | resolve n field => exact safe_resolveField h n field
  | trigger n field => exact safe_trigger h n field
  | fire address => exact safe_fire h address
  | create kind args => exact safe_create h kind args
  | find kind id => exact safe_lookup kind id
  | findWhere kind field value => exact safe_findWhere h kind field value
  | list kind => exact safe_listKind kind
  | watch n field watcher => exact safe_watchField h n field watcher
  | watchCompute n field follower followerField =>
    exact .bind (safe_getInstance n) fun i => safe_follow h _ follower followerField
  | unregister watcher => exact safe_modify (fun _ => rfl) fun _ => rfl
  | expire age => exact safe_expire age
  | resolveAll ns field failFast => exact safe_resolveAll h ns field failFast
  | await n field retries => exact safe_retryField h n field retries
  | store n field data => exact absurd trivial hop

/-- **Every operation is safe,** by induction on the depth. -/
theorem safe_perform (fuel : Nat) : Performer.Safe (perform fuel) := by
  induction fuel with
  | zero => exact fun _ _ => .stuck
  | succ fuel ih => exact safe_step ih

/-- **Operations keep sessions well typed,** however deep they nest. -/
theorem WellTyped.run (hs : s.WellTyped) {fuel : Nat} {op : Operation} (hop : ¬ op.Stores)
    {a : Except Error op.Answer} {t : Session} (hrun : s.run fuel op = some (a, t)) :
    t.WellTyped ∧ s.Extends t :=
  safe_perform fuel op hop s hs a t hrun

end Session

end LazyFields
