/-
  LazyFields.Proofs.Session.Undisturbed
  ────────────────────────────────
  **WHAT AN ID IS MADE OF.**

  Id logic may read the fields of the instance that it gives an id to.  While
  it runs the instance has no id, so in the watch graph its fields go by the
  names of the fields of the shared instance, the one with the empty id.

    · `undisturbed` — a call that constructs an instance runs no callback and
      leaves the watch graph alone, if its id logic reads no field for which
      the name makes a difference: it may read a field with references, or a
      field that nobody watches on the shared instance, and it may resolve a
      field without references (`Kind.Discreet`)
    · `shared_disturbed` — without that condition a callback of the shared
      instance is run, and a watch is added in its name
-/
import LazyFields.Proofs.Session.Identity

namespace LazyFields

/-! ## §1. An action that copies another one. -/

namespace Action

variable {α β : Type}

/-- Where `P` holds, what the first action answers the second one answers too,
and `Q` holds of it. -/
def Copies (P : Session → Prop) (a b : Action α) (Q : Except Error α → Session → Prop) : Prop :=
  ∀ s, P s → ∀ r t, a.runOn s = some (r, t) → b.runOn s = some (r, t) ∧ Q r t

variable {P : Session → Prop} {a b : Action α} {f g : α → Action β}
  {Q Q' : Except Error α → Session → Prop} {R : Except Error β → Session → Prop}

namespace Copies

/-- Less may be said of the end. -/
theorem mono (h : Copies P a b Q) (k : ∀ r t, Q r t → Q' r t) : Copies P a b Q' := by
  intro s hs r t hrun
  obtain ⟨hcopy, hq⟩ := h s hs r t hrun
  exact ⟨hcopy, k r t hq⟩

/-- More may be asked of the start. -/
theorem of_imp {P' : Session → Prop} (h : Copies P a b Q) (k : ∀ s, P' s → P s) :
    Copies P' a b Q := fun s hs => h s (k s hs)

/-- An action that performs nothing. -/
theorem same (h : ∀ s, P s → ∀ r t, a.runOn s = some (r, t) → Q r t) : Copies P a a Q :=
  fun s hs r t hrun => ⟨hrun, h s hs r t hrun⟩

/-- An answer without a look at the session is its own copy. -/
theorem ofResult {r : Except Error α} (h : ∀ s, P s → Q r s) :
    Copies P (Action.ofResult r) (Action.ofResult r) Q := by
  refine same ?_
  intro s hs r' t hrun
  cases hrun
  exact h s hs

theorem pure {x : α} (h : ∀ s, P s → Q (.ok x) s) :
    Copies P (Pure.pure x : Action α) (Pure.pure x) Q := ofResult h

theorem throw {e : Error} (h : ∀ s, P s → Q (.error e) s) :
    Copies P (MonadExcept.throw e : Action α) (MonadExcept.throw e) Q := ofResult h

/-- A copy of both parts is a copy of the whole. -/
theorem bind (h : Copies P a b Q) (hok : ∀ x, Copies (Q (.ok x)) (f x) (g x) R)
    (herror : ∀ e t, Q (.error e) t → R (.error e) t) : Copies P (a >>= f) (b >>= g) R := by
  intro s hs r u hrun
  rcases parts_of_runOn_bind hrun with ⟨x, t, hfirst, hsecond⟩ | ⟨e, hfirst, rfl⟩
  · obtain ⟨hcopy, hq⟩ := h s hs _ _ hfirst
    obtain ⟨hcopy', hr⟩ := hok x t hq r u hsecond
    rw [runOn_bind_ok hcopy]
    exact ⟨hcopy', hr⟩
  · obtain ⟨hcopy, hq⟩ := h s hs _ _ hfirst
    rw [runOn_bind, hcopy]
    exact ⟨rfl, herror e u hq⟩

/-- From each session on its own. -/
theorem of_forall (h : ∀ s, P s → Copies (· = s) a b Q) : Copies P a b Q :=
  fun s hs => h s hs s rfl

/-- From one session on, where both actions end alike. -/
theorem of_runOn {s t : Session} {r : Except Error α} (ha : a.runOn s = some (r, t))
    (hb : b.runOn s = some (r, t)) (h : Q r t) : Copies (· = s) a b Q := by
  rintro _ rfl r' t' hrun
  obtain ⟨rfl, rfl⟩ := Prod.mk.inj (Option.some.inj (ha.symm.trans hrun))
  exact ⟨hb, h⟩

/-- From one session on, after a first part that performs nothing and succeeds. -/
theorem next {s t : Session} {x : α} (ha : a.runOn s = some (.ok x, t))
    (k : Copies (· = t) (f x) (g x) R) : Copies (· = s) (a >>= f) (a >>= g) R := by
  rintro _ rfl r u hrun
  rw [runOn_bind_ok ha] at hrun ⊢
  exact k t rfl r u hrun

/-- Going on whatever comes of the first part. -/
theorem attempt_bind {f g : Except Error α → Action β} (h : Copies P a b Q)
    (k : ∀ r, Copies (Q r) (f r) (g r) R) :
    Copies P (Action.attempt a >>= f) (Action.attempt b >>= g) R := by
  intro s hs r u hrun
  rw [runOn_bind, runOn_attempt] at hrun ⊢
  cases hfirst : a.runOn s with
  | none => simp [hfirst] at hrun
  | some p =>
    obtain ⟨hcopy, hq⟩ := h s hs p.1 p.2 hfirst
    rw [hfirst] at hrun
    rw [hcopy]
    exact k p.1 p.2 hq r u hrun

/-- Both look at the same session and go on from there. -/
theorem get_bind {f g : Session → Action β} (h : ∀ s, Copies P (f s) (g s) R) :
    Copies P ((MonadState.get : Action Session) >>= f) (MonadState.get >>= g) R := by
  intro s hs r t hrun
  rw [runOn_bind, Session.runOn_get] at hrun ⊢
  exact h s s hs r t hrun

end Copies

end Action

open LazyFields.Action (Copies)

/-- A settled entry has a result. -/
theorem Entry.result?_isSome {e : Entry} (h : e.isSettled = true) : e.result?.isSome = true := by
  unfold isSettled at h
  unfold result?
  cases he : e.error with
  | some err => rfl
  | none =>
    rw [he, Option.isSome_none, Bool.or_false] at h
    simp [h]

/-! ## §2. Programs that read an instance. -/

/-- The program asks for nothing but whether the session runs, to read some
fields of an instance, and to resolve others. -/
inductive Program.Consults {α : Type} (n : Nat) (reads resolves : String → Prop) :
    Program α → Prop
  | done (r : Except Error α) : Consults n reads resolves (.done r)
  | live {next : Except Error Unit → Program α} (h : ∀ r, Consults n reads resolves (next r)) :
      Consults n reads resolves (.ask (.live n) next)
  | field {f : String} {next : Except Error Value → Program α} (hf : reads f)
      (h : ∀ r, Consults n reads resolves (next r)) :
      Consults n reads resolves (.ask (.field n f) next)
  | resolve {f : String} {next : Except Error Value → Program α} (hf : resolves f)
      (h : ∀ r, Consults n reads resolves (next r)) :
      Consults n reads resolves (.ask (.resolve n f) next)

namespace Kind

/-- The field is declared without references, if at all. -/
def StandsAlone (k : Kind) (f : String) : Prop :=
  ∀ spec, k.info.field? f = some spec → spec.refs = []

/-- The id logic of the kind reads the given fields and resolves the others.
Of those that it reads, nobody watches one that is computed on the spot; those
that it resolves refer to nothing.  The logic of fields without references
does no more than that. -/
structure Discreet (k : Kind) (watches : WatchGraph FollowUp) (reads resolves : String → Prop) :
    Prop where
  idLogic : ∀ {logic}, k.idLogic = some logic →
    ∀ self number, (logic self number).Consults self.number reads resolves
  compute : ∀ {f logic}, reads f ∨ resolves f → k.StandsAlone f → k.compute? f = some logic →
    ∀ self values number, (logic self values number).Consults self.number reads resolves
  unheard : ∀ {f spec}, reads f → k.info.field? f = some spec → spec.isStatic = false →
    spec.refs = [] → watches.hasWatchers (fieldAddress k.name "" f) = false
  alone : ∀ {f}, resolves f → k.StandsAlone f

end Kind

namespace Session

/-- The instance is as given, and so is the watch graph. -/
structure Still (n : Nat) (m : Member) (watches : WatchGraph FollowUp) (s : Session) : Prop where
  member : s.outline.member? n = some m
  watches : s.watches = watches

/-- Reading the field computes nothing: it has a result, unless it has none for
good. -/
def Settled (n : Nat) (k : Kind) (f : String) (s : Session) : Prop :=
  ∀ spec, k.info.field? f = some spec → spec.isStatic = false →
    ∃ i, s.instance? n = some i ∧ (i.cache.result? f).isSome

variable {n : Nat} {k : Kind} {m : Member} {watches : WatchGraph FollowUp} {f : String}
  {s t : Session} {α : Type}

/-! ## §3. Small actions. -/

/-- An action that changes neither an outline nor the watch graph. -/
theorem copies_of_view {a : Action α} (h : ∀ s r t, a.runOn s = some (r, t) →
    t.outline = s.outline ∧ t.watches = s.watches) :
    Copies (Still n m watches) a a fun _ => Still n m watches := by
  refine .same ?_
  intro s hs r t hrun
  obtain ⟨houtline, hwatches⟩ := h s r t hrun
  exact ⟨houtline ▸ hs.member, hwatches.trans hs.watches⟩

/-- A note is the same for both. -/
theorem copies_note_bind {e : Event} {f g : Unit → Action α}
    {R : Except Error α → Session → Prop} (h : Copies (Still n m watches) (f ()) (g ()) R) :
    Copies (Still n m watches) (note e >>= f) (note e >>= g) R := by
  intro s hs r t hrun
  rw [Action.runOn_bind, runOn_note] at hrun ⊢
  exact h (s.record e) ⟨hs.member, hs.watches⟩ r t hrun

/-- Both find the same instance, with the member that is known of it. -/
theorem copies_getInstance_bind {β : Type} {f g : Instance → Action β}
    {R : Except Error β → Session → Prop}
    (h : ∀ i, i.member = m → Copies (Still n m watches) (f i) (g i) R) :
    Copies (Still n m watches) (getInstance n >>= f) (getInstance n >>= g) R := by
  intro s hs r t hrun
  obtain ⟨i, hi, hmember⟩ := instance_of_member? (s := s) hs.member
  rw [Action.runOn_bind, runOn_getInstance hi] at hrun ⊢
  exact h i hmember s hs r t hrun

/-- Both find the field declared, or both fail. -/
theorem copies_declared_bind {β : Type} {f g : FieldSpec → Action β} {field : String}
    {R : Except Error β → Session → Prop}
    (h : ∀ spec, m.kind.info.field? field = some spec →
      Copies (Still n m watches) (f spec) (g spec) R)
    (hnone : ∀ s e, m.kind.info.field? field = none → Still n m watches s → R (.error e) s) :
    Copies (Still n m watches) (declared n field >>= f) (declared n field >>= g) R := by
  intro s hs r t hrun
  obtain ⟨i, hi, rfl⟩ := instance_of_member? (s := s) hs.member
  cases hspec : i.kind.info.field? field with
  | none =>
    rw [Action.runOn_bind, runOn_declared_of_none hi hspec] at hrun ⊢
    cases hrun
    exact ⟨rfl, hnone s _ hspec hs⟩
  | some spec =>
    rw [Action.runOn_bind, runOn_declared hi hspec] at hrun ⊢
    exact h spec hspec s hs r t hrun

/-- A change of the cache leaves all still. -/
theorem copies_onCache (c : Cache → α × Cache) :
    Copies (Still n m watches) (onCache n c) (onCache n c) fun _ => Still n m watches := by
  refine copies_getInstance_bind fun i _ => copies_of_view ?_
  intro s r t hrun
  cases hrun
  exact ⟨outline_setCache s n _, rfl⟩

/-- Asking whether the session runs leaves all still. -/
theorem copies_requireLive :
    Copies (Still n m watches) (requireLive n) (requireLive n) fun _ => Still n m watches := by
  refine copies_getInstance_bind fun i _ => .get_bind fun s => ?_
  split
  · exact .pure fun _ hs => hs
  · exact .throw fun _ hs => hs

/-- Giving up a claim fails with the given error. -/
theorem copies_abandon (e : Error) :
    Copies (Still n m watches) (abandon n f e) (abandon n f e) fun r t =>
      r = .error e ∧ Still n m watches t := by
  refine .same ?_
  intro s hs r t hrun
  obtain ⟨i, hi, -⟩ := instance_of_member? (s := s) hs.member
  simp only [abandon, Action.runOn_bind, runOn_releaseField hi, Action.runOn_throw] at hrun
  cases hrun
  have hmember : (s.setCache n (i.cache.release f)).outline.member? n = some m := by
    rw [outline_setCache]
    exact hs.member
  exact ⟨rfl, hmember, hs.watches⟩

/-- What is stored is settled. -/
theorem copies_storeEntry {e : Entry} (he : e.result?.isSome) :
    Copies (Still n m watches) (storeEntry n f e) (storeEntry n f e) fun _ t =>
      Still n m watches t ∧ Settled n m.kind f t := by
  intro s hs r t hrun
  refine ⟨hrun, (copies_onCache _ s hs r t hrun).2, ?_⟩
  obtain ⟨i, hi, -⟩ := instance_of_member? (s := s) hs.member
  rw [runOn_storeEntry hi] at hrun
  cases hrun
  intro spec _ _
  refine ⟨{ i with cache := i.cache.store f e }, by rw [instance?_setCache hi, if_pos rfl], ?_⟩
  simpa [Cache.result?, Cache.get?_store] using he

/-- What a computation leaves: nothing else, and a result unless it is not
ready. -/
def Leaves (n : Nat) (m : Member) (watches : WatchGraph FollowUp) (f : String)
    (r : Except Error Unit) (t : Session) : Prop :=
  Still n m watches t ∧ (r ≠ .error .notReady → Settled n m.kind f t)

/-- What is concluded settles the field, or leaves it as it is. -/
theorem copies_conclude (result : Except Error Value) :
    Copies (Still n m watches) (conclude n f result) (conclude n f result)
      (Leaves n m watches f) := by
  unfold conclude
  refine .get_bind fun s => ?_
  split
  · exact (copies_storeEntry rfl).mono fun _ t ht => ⟨ht.1, fun _ => ht.2⟩
  · refine (copies_abandon .notReady).mono ?_
    rintro r t ⟨rfl, ht⟩
    exact ⟨ht, fun hne => absurd rfl hne⟩
  · exact .bind (copies_storeEntry rfl) (fun _ => .throw fun _ hs => ⟨hs.1, fun _ => hs.2⟩)
      fun _ t ht => ⟨ht.1, fun _ => ht.2⟩

/-- A field that is claimed already has its result, or is being computed. -/
theorem copies_claim :
    Copies (Still n m watches) (onCache n (·.claim f false)) (onCache n (·.claim f false))
      fun r t => Still n m watches t ∧ (∀ e, r ≠ .error e) ∧
        ∀ e, r = .ok (.ready e) → Settled n m.kind f t := by
  intro s hs r t hrun
  refine ⟨hrun, (copies_onCache _ s hs r t hrun).2, ?_⟩
  obtain ⟨i, hi, -⟩ := instance_of_member? (s := s) hs.member
  rw [runOn_onCache hi] at hrun
  cases hrun
  refine ⟨by simp, fun e he => ?_⟩
  obtain ⟨hslot, -, hsettled⟩ := Cache.claim_eq_ready_iff.1 (Except.ok.inj he)
  intro spec _ _
  refine ⟨{ i with cache := (i.cache.claim f false).2 },
    by rw [instance?_setCache hi, if_pos rfl], ?_⟩
  rw [Cache.result?, Cache.get?_claim, Cache.get?, hslot]
  exact Entry.result?_isSome hsettled

/-- Looking at a cached result leaves all still. -/
theorem copies_cached? :
    Copies (Still n m watches) (cached? n f) (cached? n f) fun _ => Still n m watches :=
  copies_getInstance_bind fun _ _ => .pure fun _ hs => hs

/-- A settled field is read from the cache, by either performer. -/
theorem copies_reread {call call' : Performer} :
    Copies (fun s => Still n m watches s ∧ Settled n m.kind f s) (readField call n f)
      (readField call' n f) fun _ => Still n m watches := by
  rintro s ⟨hs, hsettled⟩ r t hrun
  obtain ⟨i, hi, rfl⟩ := instance_of_member? (s := s) hs.member
  have hidle : ∀ spec, i.kind.info.field? f = some spec →
      spec.isStatic = true ∨ (i.cache.result? f).isSome := by
    intro spec hspec
    by_cases hstatic : spec.isStatic = true
    · exact .inl hstatic
    · obtain ⟨j, hj, hsome⟩ := hsettled spec hspec (by simpa using hstatic)
      obtain rfl := Option.some.inj (hi.symm.trans hj)
      exact .inr hsome
  obtain ⟨r', hread⟩ := runOn_readField_of_idle hi hidle
  rw [hread] at hrun ⊢
  cases hrun
  exact ⟨rfl, hs⟩

/-- A field that stands alone has nothing to register. -/
theorem copies_register {call call' : Performer} (halone : k.StandsAlone f) :
    Copies (Still n ⟨k, "", false⟩ watches) (register call n f) (register call' n f)
      fun _ => Still n ⟨k, "", false⟩ watches := by
  unfold register
  refine copies_declared_bind (fun spec hspec => ?_) fun _ _ _ hs => hs
  rw [halone spec hspec]
  exact .pure fun _ hs => hs

/-! ## §4. Fields of an instance without an id. -/

/-- Where one performer answers what logic asks of the instance `n`, the other
one answers the same, and nothing but caches changes. -/
structure Copying (n : Nat) (k : Kind) (watches : WatchGraph FollowUp)
    (reads resolves : String → Prop) (call call' : Performer) : Prop where
  live : Copies (Still n ⟨k, "", false⟩ watches) (call (.live n)) (call' (.live n))
    fun _ => Still n ⟨k, "", false⟩ watches
  field : ∀ {f}, reads f → Copies (Still n ⟨k, "", false⟩ watches) (call (.field n f))
    (call' (.field n f)) fun _ => Still n ⟨k, "", false⟩ watches
  resolve : ∀ {f}, resolves f → Copies (Still n ⟨k, "", false⟩ watches) (call (.resolve n f))
    (call' (.resolve n f)) fun _ => Still n ⟨k, "", false⟩ watches
  register : ∀ {f}, k.StandsAlone f → Copies (Still n ⟨k, "", false⟩ watches)
    (call (.register n f)) (call' (.register n f)) fun _ => Still n ⟨k, "", false⟩ watches
  compute : ∀ {f}, reads f ∨ resolves f → k.StandsAlone f →
    Copies (Still n ⟨k, "", false⟩ watches) (call (.compute n f)) (call' (.compute n f))
      (Leaves n ⟨k, "", false⟩ watches f)
  reread : ∀ {f}, Copies (fun s => Still n ⟨k, "", false⟩ watches s ∧ Settled n k f s)
    (call (.field n f)) (call' (.field n f)) fun _ => Still n ⟨k, "", false⟩ watches
  fire : ∀ {address}, watches.hasWatchers address = false →
    Copies (Still n ⟨k, "", false⟩ watches) (call (.fire address)) (call' (.fire address))
      fun _ => Still n ⟨k, "", false⟩ watches

section Copying

variable {reads resolves : String → Prop} {call call' : Performer}
  (h : Copying n k watches reads resolves call call')

include h

/-- A program that consults such fields only is its own copy. -/
theorem copies_program {p : Program α} (hp : p.Consults n reads resolves) :
    Copies (Still n ⟨k, "", false⟩ watches) (p.run call) (p.run call')
      fun _ => Still n ⟨k, "", false⟩ watches := by
  induction hp with
  | done r => exact .ofResult fun _ hs => hs
  | live _ ih => exact .attempt_bind h.live ih
  | field hf _ ih => exact .attempt_bind (h.field hf) ih
  | resolve hf _ ih => exact .attempt_bind (h.resolve hf) ih

/-- Resolving a field that stands alone disturbs nobody. -/
theorem copies_resolveField (hf : resolves f) (halone : k.StandsAlone f) :
    Copies (Still n ⟨k, "", false⟩ watches) (resolveField call n f) (resolveField call' n f)
      fun _ => Still n ⟨k, "", false⟩ watches := by
  unfold resolveField
  refine .bind (h.register halone) (fun _ => ?_) fun _ _ ht => ht
  refine .attempt_bind (h.compute (.inr hf) halone) fun r => ?_
  split
  · exact .throw fun _ hs => hs.1
  · next hready =>
    exact h.reread.of_imp fun s hs => ⟨hs.1, hs.2 hready⟩

variable (hk : k.Discreet watches reads resolves)

include hk

/-- Running the logic of such a field disturbs nobody. -/
theorem copies_runLogic (hf : reads f ∨ resolves f) (halone : k.StandsAlone f) (spec : FieldSpec)
    (values : List Value) :
    Copies (Still n ⟨k, "", false⟩ watches) (runLogic call n spec f values)
      (runLogic call' n spec f values) (Leaves n ⟨k, "", false⟩ watches f) := by
  unfold runLogic
  refine copies_getInstance_bind fun i hi => ?_
  have hkind : i.kind = k := congrArg Member.kind hi
  split
  · exact copies_conclude _
  · next logic hlogic =>
    rw [hkind] at hlogic
    refine copies_note_bind (.get_bind fun s => ?_)
    exact .attempt_bind (copies_program h (hk.compute hf halone hlogic ⟨n, _, _⟩ _ _))
      fun _ => copies_conclude _

/-- Nor does computing it. -/
theorem copies_computeField (hf : reads f ∨ resolves f) (halone : k.StandsAlone f) :
    Copies (Still n ⟨k, "", false⟩ watches) (computeField call n f false)
      (computeField call' n f false) (Leaves n ⟨k, "", false⟩ watches f) := by
  unfold computeField
  refine copies_declared_bind (fun spec hspec => ?_) ?_
  · split
    · next hstatic =>
      refine .pure fun s hs => ⟨hs, fun _ spec' hspec' hcomputed => ?_⟩
      rw [hspec] at hspec'
      cases hspec'
      simp [hstatic] at hcomputed
    · refine .bind copies_claim (fun claim => ?_) ?_
      · cases claim with
        | ready e => exact .pure fun s hs => ⟨hs.1, fun _ => hs.2.2 e rfl⟩
        | busy => exact .throw fun s hs => ⟨hs.1, fun hne => absurd rfl hne⟩
        | acquired =>
          -- without references there is nothing to settle first
          rw [halone spec hspec]
          exact (copies_runLogic h hk hf halone spec []).of_imp fun _ hs => hs.1
      · exact fun e t ht => absurd rfl (ht.2.1 e)
  · intro s e hnone hs
    refine ⟨hs, fun _ spec hspec => ?_⟩
    simp [hnone] at hspec

/-- Nor does reading it, since nobody hears of it. -/
theorem copies_readField (hf : reads f) :
    Copies (Still n ⟨k, "", false⟩ watches) (readField call n f) (readField call' n f)
      fun _ => Still n ⟨k, "", false⟩ watches := by
  unfold readField
  refine copies_declared_bind (fun spec hspec => ?_) fun _ _ _ hs => hs
  refine .bind copies_cached? (fun cached => ?_) fun _ _ ht => ht
  cases cached with
  | some r => exact .ofResult fun _ hs => hs
  | none =>
    refine copies_getInstance_bind fun i hi => ?_
    split
    · exact .throw fun _ hs => hs
    · next hcomputed =>
      split
      · exact .throw fun _ hs => hs
      · next hrefs =>
        have hrefs : spec.refs = [] := by simpa using hrefs
        have halone : k.StandsAlone f := by
          intro spec' hspec'
          rw [hspec] at hspec'
          cases hspec'
          exact hrefs
        refine .attempt_bind (h.compute (.inl hf) halone) fun computed => ?_
        split
        · exact .throw fun _ hs => hs.1
        · refine .bind (copies_cached?.of_imp fun _ hs => hs.1) (fun cached => ?_) fun _ _ ht => ht
          cases cached with
          | none => exact .throw fun _ hs => hs
          | some r =>
            refine .get_bind fun s => ?_
            split
            · -- this is where callbacks of the shared instance would be run
              have haddress : i.fieldAddress f = fieldAddress k.name "" f := by
                obtain ⟨rfl, hid, -⟩ := Member.mk.inj hi
                rw [Instance.fieldAddress, hid]
              rw [haddress]
              exact .bind (h.fire (hk.unheard hf hspec (by simpa using hcomputed) hrefs))
                (fun _ => .ofResult fun _ hs => hs) fun _ _ ht => ht
            · exact .ofResult fun _ hs => hs

end Copying

/-! ## §5. Performing without callbacks. -/

/-- A field that nobody watches has no callbacks to run. -/
theorem runOn_fire_of_unwatched {call : Performer} {address : String}
    (h : s.watches.hasWatchers address = false) :
    (fire call address).runOn s = some (.ok 0, s) := by
  have hnone : (s.watches.callbacks address).values = [] := by
    have hempty : (s.watches.callbacks address).entries = [] := by
      simpa [WatchGraph.hasWatchers, Table.isEmpty] using h
    rw [Table.values, hempty]
    rfl
  simp [fire, Action.runOn_bind, hnone]

/-- Firing for nobody does nothing. -/
theorem copies_fire {call call' : Performer} {address : String}
    (h : watches.hasWatchers address = false) :
    Copies (Still n m watches) (fire call address) (fire call' address)
      fun _ => Still n m watches := by
  intro s hs r t hrun
  have hunwatched : s.watches.hasWatchers address = false := hs.watches ▸ h
  rw [runOn_fire_of_unwatched hunwatched] at hrun ⊢
  cases hrun
  exact ⟨rfl, hs⟩

/-- The quiet performer does the same where nothing is disturbed. -/
theorem copies_performQuietly {P : Session → Prop} {fuel : Nat} {op : Operation}
    {Q : Except Error op.Answer → Session → Prop} (hquiet : ∀ s, P s → op.disturbs s = false)
    (h : Copies P (step (perform fuel) op) (step (performQuietly fuel) op) Q) :
    Copies P (perform (fuel + 1) op) (performQuietly (fuel + 1) op) Q := by
  intro s hs r t hrun
  rw [runOn_performQuietly, hquiet s hs]
  exact h s hs r t hrun

/-- **What discreet logic asks for is answered without running callbacks.** -/
theorem copying_perform {reads resolves : String → Prop} (hk : k.Discreet watches reads resolves)
    (n : Nat) (fuel : Nat) :
    Copying n k watches reads resolves (perform fuel) (performQuietly fuel) := by
  induction fuel with
  | zero =>
    have hstuck : ∀ {α : Type} {P : Session → Prop} {Q : Except Error α → Session → Prop},
        Copies P Action.stuck Action.stuck Q := by
      intro α P Q s _ r t hrun
      simp at hrun
    exact ⟨hstuck, fun _ => hstuck, fun _ => hstuck, fun _ => hstuck, fun _ _ => hstuck, hstuck,
      fun _ => hstuck⟩
  | succ fuel ih =>
    -- only firing may run callbacks, and only addresses that nobody watches are fired
    refine ⟨?_, fun hf => ?_, fun hf => ?_, fun halone => ?_, fun hf halone => ?_, ?_,
      fun hunwatched => ?_⟩
    · exact copies_performQuietly (fun _ _ => rfl) copies_requireLive
    · exact copies_performQuietly (fun _ _ => rfl) (copies_readField ih hk hf)
    · exact copies_performQuietly (fun _ _ => rfl) (copies_resolveField ih hf (hk.alone hf))
    · exact copies_performQuietly (fun _ _ => rfl) (copies_register halone)
    · exact copies_performQuietly (fun _ _ => rfl) (copies_computeField ih hk hf halone)
    · exact copies_performQuietly (fun _ _ => rfl) copies_reread
    · refine copies_performQuietly (fun s hs => ?_) (copies_fire hunwatched)
      rw [Operation.disturbs, hs.watches]
      exact hunwatched

/-! ## §6. Construction. -/

/-- Choosing the id by discreet logic disturbs nobody. -/
theorem copies_chooseId {reads resolves : String → Prop} (hk : k.Discreet watches reads resolves)
    (fuel : Nat) (forced : Option String) :
    Copies (Still n ⟨k, "", false⟩ watches) (chooseId (perform fuel) k n forced)
      (chooseId (performQuietly fuel) k n forced) fun _ => Still n ⟨k, "", false⟩ watches := by
  unfold chooseId
  split
  · exact .pure fun _ hs => hs
  · exact .pure fun _ hs => hs
  · next logic _ hlogic =>
    refine copies_note_bind (.get_bind fun s => ?_)
    exact copies_program (copying_perform hk n fuel) (hk.idLogic hlogic ⟨n, _, _⟩ _)

/-- Fields that nobody watches are not woken. -/
theorem runOn_wakes_of_unwatched {call : Performer} {i : Instance} (hi : s.instance? n = some i) :
    ∀ {fs : List String}, (∀ f ∈ fs, s.watches.hasWatchers (i.fieldAddress f) = false) →
      (fs.forM (wake call n)).runOn s = some (.ok (), s) := by
  intro fs
  induction fs with
  | nil => exact fun _ => rfl
  | cons f fs ih =>
    intro h
    show (wake call n f >>= fun _ => fs.forM (wake call n)).runOn s = _
    rw [Action.runOn_bind, runOn_wake_of_unwatched hi (h f List.mem_cons_self)]
    exact ih fun g hg => h g (List.mem_cons_of_mem _ hg)

/-- An instance whose fields nobody watches is published without more, and so is
one that turns out to be published already. -/
theorem runOn_publish_of_unwatched {id : String} (hs : Still n ⟨k, "", false⟩ watches s)
    (h : s.published.get? (instanceAddress k.name id) = none →
      ∀ f ∈ k.info.fields.keys, watches.hasWatchers (fieldAddress k.name id f) = false) :
    ∃ r t, (∀ call, (publish call k n id).runOn s = some (r, t)) ∧ t.watches = watches := by
  cases hpublished : s.published.get? (instanceAddress k.name id) with
  | some other => exact ⟨_, _, fun _ => runOn_publish_of_some hpublished, hs.watches⟩
  | none =>
    obtain ⟨i, hi, hmember⟩ := instance_of_member? (s := s) hs.member
    refine ⟨.ok ⟨n, k.name, id⟩, { s.modifyInstance n (fun i => { i with id }) with
      published := s.published.insert (instanceAddress k.name id) n }, fun call => ?_, hs.watches⟩
    have hthere : ({ s.modifyInstance n (fun i => { i with id }) with
        published := s.published.insert (instanceAddress k.name id) n } : Session).instance? n
          = some { i with id } := by
      show (s.modifyInstance n fun i => { i with id }).instance? n = _
      rw [instance?_modifyInstance, hi, Option.map_some, if_pos rfl]
    rw [runOn_publish_of_none hpublished, Action.runOn_bind, runOn_wakes_of_unwatched hthere]
    · rfl
    · intro f hf
      have hkind : i.kind = k := congrArg Member.kind hmember
      show s.watches.hasWatchers (fieldAddress i.kind.name id f) = false
      rw [hkind, hs.watches]
      exact h hpublished f hf

variable {id : String} {r : Ref}

/-- **Discreet id logic disturbs nobody.**  A call that constructs an instance
runs no callback and leaves the watch graph as it is, provided that its id logic
is discreet, that what runs before construction does neither, and that nobody
watches a field of the instance under the id that it gets, unless an instance of
this id is there already, which then is the answer. -/
theorem undisturbed (call : Construction s t k id r) {reads resolves : String → Prop}
    (hk : k.Discreet s.watches reads resolves)
    (hprepares : (prepare (performQuietly call.fuel) k call.args).runOn s
      = some (.ok (.proceed call.proceeded), call.prepared))
    (hprepared : call.prepared.watches = s.watches)
    (hnew : call.named.published.get? (instanceAddress k.name id) = none →
      ∀ f ∈ k.info.fields.keys, s.watches.hasWatchers (fieldAddress k.name id f) = false) :
    (performQuietly (call.fuel + 1) (.create call.name call.args)).runOn s = some (.ok r, t)
      ∧ t.watches = s.watches := by
  have hallocated : Still call.number ⟨k, "", false⟩ s.watches
      (call.prepared.allocated k call.cache) := by
    refine ⟨?_, hprepared⟩
    simp [member?_outline, instance?, allocated, Construction.number, Instance.member]
  obtain ⟨hidentifies, hnamed⟩ :=
    copies_chooseId hk call.fuel call.forced _ hallocated _ _ call.identifies
  obtain ⟨r', t', hpublish, hwatches⟩ := runOn_publish_of_unwatched hnamed hnew
  have hrun := (hpublish _).symm.trans call.publishes
  cases hrun
  exact ⟨(call.runOn_performQuietly_create hprepares hidentifies).trans (hpublish _), hwatches⟩

/-! ## §7. An example. -/

section Example

open LazyFields.Sample (after)

/-- Logic that gives a text. -/
def saying : ComputeLogic := fun _ _ _ => .done (.ok (.string "v"))

/-- A kind with a static field `a`; `g` is computed from it, `f` and `h` from
nothing. -/
def saidBy (logic : IdLogic) : Kind where
  info := ⟨"r", "r", "", "", none, false, false, "", Table.ofList
    [("a", labelField "a" true []), ("f", labelField "f" false []),
      ("g", labelField "g" false ["a"]), ("h", labelField "h" false [])], none⟩
  computes := Table.ofList [("f", saying), ("g", saying), ("h", saying)]
  init := none
  idLogic := some logic

/-- Id logic that reads `f`, and then resolves another field. -/
def readsAnd (field : String) : IdLogic := fun self _ =>
  .ask (.field self.number "f") fun _ => .ask (.resolve self.number field) fun _ => .done (.ok "x")

/-- Arguments that force an id, or do not. -/
def saidWith (id : Value) : Args := Table.ofList [("__id", id), ("a", .string "w")]

/-- A session whose shared instance somebody listens to. -/
def overheard (k : Kind) (field : String) : Session :=
  after (after (.new ⟨Table.ofList [("r", k)], ∅⟩ ⟨1, 1, false, fun _ => none⟩ 0)
    (.create "r" (saidWith (.string "")))) (.watch 0 field "w")

/-- Somebody listens to `g`, and the id logic resolves `h`. -/
def discreet : Session := overheard (saidBy (readsAnd "h")) "g"

/-- Logic that reads `f` and resolves `h` is discreet where somebody listens to
`g`. -/
theorem discreet_saidBy :
    (saidBy (readsAnd "h")).Discreet discreet.watches (· = "f") (· = "h") where
  idLogic := by
    rintro logic ⟨⟩ self number
    exact .field rfl fun _ => .resolve rfl fun _ => .done _
  compute {f logic} _ _ hlogic := by
    have hmem : (f, logic) ∈ [("f", saying), ("g", saying), ("h", saying)] :=
      Table.get?_eq_some_iff_mem.1 hlogic
    have hsaying : logic = saying := by
      simp only [List.mem_cons, Prod.mk.injEq, List.not_mem_nil, or_false] at hmem
      rcases hmem with ⟨-, h⟩ | ⟨-, h⟩ | ⟨-, h⟩
      all_goals exact h
    intro self values number
    rw [hsaying]
    exact .done _
  unheard := by
    rintro f spec rfl - - -
    decide +kernel
  alone := by
    rintro f rfl spec hspec
    have hspec' : (saidBy (readsAnd "h")).info.field? "h" = some (labelField "h" false []) := by rfl
    rw [hspec'] at hspec
    cases hspec
    rfl

def discreetCache : Cache :=
  ((saidBy (readsAnd "h")).cacheOf (fun _ => none) 0 (Table.ofList [("a", .string "w")])).toOption.getD ∅

def discreetCall : Construction discreet (after discreet (.create "r" (saidWith .null)))
    (saidBy (readsAnd "h")) "x" ⟨1, "r", "x"⟩ where
  fuel := 19
  name := "r"
  args := saidWith .null
  proceeded := saidWith .null
  prepared := discreet
  forced := none
  given := Table.ofList [("a", .string "w")]
  cache := discreetCache
  named := (((chooseId (perform 19) (saidBy (readsAnd "h")) 1 none).runOn
    (discreet.allocated (saidBy (readsAnd "h")) discreetCache)).map Prod.snd).getD discreet
  get := by rfl
  run := by rfl
  prepares := by rfl
  takesId := by rfl
  fills := by rfl
  identifies := by rfl

/-- The instance gets the id `x`, and the watcher of `g` hears nothing of it. -/
theorem undisturbed_discreet :
    (saidBy (readsAnd "h")).Discreet discreet.watches (· = "f") (· = "h")
      ∧ (∀ f ∈ (saidBy (readsAnd "h")).info.fields.keys,
        discreet.watches.hasWatchers (fieldAddress "r" "x" f) = false)
      ∧ (performQuietly 20 (.create "r" (saidWith .null))).runOn discreet
        = some (.ok ⟨1, "r", "x"⟩, after discreet (.create "r" (saidWith .null)))
      ∧ (after discreet (.create "r" (saidWith .null))).watches = discreet.watches := by
  have hnew : ∀ f ∈ (saidBy (readsAnd "h")).info.fields.keys,
      discreet.watches.hasWatchers (fieldAddress "r" "x" f) = false := by decide +kernel
  exact ⟨discreet_saidBy, hnew, undisturbed discreetCall discreet_saidBy (by rfl) rfl fun _ => hnew⟩

/-- Somebody listens to `f`, and the id logic resolves `g`. -/
def indiscreet : Session := overheard (saidBy (readsAnd "g")) "f"

/-- How often a watcher got a result. -/
def reports (s : Session) (watcher : String) : Nat :=
  s.journal.countP fun
    | .reported w _ => w = watcher
    | _ => false

/-- **Id logic disturbs the shared instance.**  An instance with the id `x` is
constructed.  Before that, `w` watches the field `f` of the shared instance, and
nobody its field `a`; afterwards `w` was called once more, and the field `g` of
the shared instance, which nobody asked for, watches `a`. -/
theorem shared_disturbed : ∃ t,
    indiscreet.run 20 (.create "r" (saidWith .null)) = some (.ok ⟨1, "r", "x"⟩, t)
      ∧ indiscreet.watches.watcherNames (fieldAddress "r" "" "f") = ["w"]
      ∧ indiscreet.watches.watcherNames (fieldAddress "r" "" "a") = []
      ∧ t.reports "w" = indiscreet.reports "w" + 1
      ∧ t.watches.watcherNames (fieldAddress "r" "" "a") = [fieldAddress "r" "" "g"] := by
  refine ⟨after indiscreet (.create "r" (saidWith .null)), Sample.run_eq_after ?_, ?_, ?_, ?_, ?_⟩
  all_goals decide +kernel

end Example

end Session

end LazyFields
