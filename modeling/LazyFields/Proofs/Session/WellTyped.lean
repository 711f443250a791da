/-
  LazyFields.Proofs.Session.WellTyped
  ────────────────────────────────
  **WHAT A CACHE MAY HOLD.**

  A session is well typed when the caches of all its instances are: entries
  belong to declared fields and hold what the type of the field allows, or a
  failure that is not the signal; and no static field is without its value.

    · `Entry.Fits`, `Kind.Holds`, `Session.WellTyped` — what that says
    · `Action.Safe` — an action that leaves a well-typed session well typed,
      and every instance of the kind it was
    · `Safe.bind` and its like — safe actions are made of safe actions
    · `safeAt_onCache` — the only way to change a cache

  Logic may ask the session anything but to store a value unchecked
  (`Program.StoresNothing`).
-/
import LazyFields.Proofs.Cache.Register
import LazyFields.Proofs.Session.Forget

namespace LazyFields

/-! ## §1. Entries and caches. -/

/-- The entry is one that a field of the type may hold: a value of the type, or
a failure that is not the signal. -/
structure Entry.Fits (e : Entry) (type : FieldType) : Prop where
  valid : e.valid = true → e.error = none ∧ e.data.matchesType type = true
  invalid : e.valid = false → e.data = .null ∧ ∃ err, e.error = some err ∧ err ≠ .notReady

/-- A value of the type makes an entry that fits. -/
theorem Entry.fits_ofValue {v : Value} {type : FieldType} (h : v.matchesType type = true)
    (now : Int) : (Entry.ofValue v now).Fits type where
  valid _ := ⟨rfl, h⟩
  invalid hvalid := by simp [Entry.ofValue] at hvalid

/-- An error makes an entry that fits, unless it is that something is not ready. -/
theorem Entry.fits_ofError {err : Error} (h : err ≠ .notReady) (type : FieldType) (now : Int) :
    (Entry.ofError err now).Fits type where
  valid hvalid := by simp [Entry.ofError] at hvalid
  invalid _ := ⟨rfl, err, rfl, h⟩

/-- The cache is one of an instance of the kind. -/
structure Kind.Holds (k : Kind) (c : Cache) : Prop where
  /-- Every entry belongs to a declared field, and fits its type. -/
  entry : ∀ {field e}, c.get? field = some e →
    ∃ spec, k.info.field? field = some spec ∧ e.Fits spec.type
  /-- Every static field has a valid entry. -/
  static : ∀ {field spec}, k.info.field? field = some spec → spec.isStatic = true →
    ∃ e, c.get? field = some e ∧ e.valid = true

namespace Kind

variable {k : Kind} {c c' : Cache} {field : String}

/-- Only what is read from the cache counts. -/
theorem Holds.congr (h : k.Holds c) (hget : ∀ f, c'.get? f = c.get? f) : k.Holds c' where
  entry hentry := h.entry (hget _ ▸ hentry)
  static hspec hstatic := by
    obtain ⟨e, he, hvalid⟩ := h.static hspec hstatic
    exact ⟨e, (hget _).trans he, hvalid⟩

/-- A computed field is given an entry that fits. -/
theorem Holds.store (h : k.Holds c) {spec : FieldSpec} (hspec : k.info.field? field = some spec)
    (hcomputed : spec.isStatic = false) {e : Entry} (he : e.Fits spec.type) :
    k.Holds (c.store field e) := by
  constructor
  · intro f e' he'
    rw [Cache.get?_store] at he'
    by_cases hf : field = f
    · subst hf
      rw [if_pos rfl] at he'
      cases he'
      exact ⟨spec, hspec, he⟩
    · rw [if_neg hf] at he'
      exact h.entry he'
  · intro f spec' hspec' hstatic
    have hf : field ≠ f := by
      intro heq
      subst heq
      rw [hspec] at hspec'
      cases hspec'
      simp [hcomputed] at hstatic
    rw [Cache.get?_store, if_neg hf]
    exact h.static hspec' hstatic

/-- Entries of computed fields are forgotten. -/
theorem Holds.forget (h : k.Holds c) (hget : ∀ f, c'.get? f = c.get? f
      ∨ c'.get? f = none ∧ ∃ spec, k.info.field? f = some spec ∧ spec.isStatic = false) :
    k.Holds c' := by
  constructor
  · intro f e he
    rcases hget f with hsame | ⟨hnone, -⟩
    · exact h.entry (hsame ▸ he)
    · simp [hnone] at he
  · intro f spec hspec hstatic
    rcases hget f with hsame | ⟨-, spec', hspec', hcomputed⟩
    · obtain ⟨e, he, hvalid⟩ := h.static hspec hstatic
      exact ⟨e, hsame.trans he, hvalid⟩
    · rw [hspec] at hspec'
      cases hspec'
      simp [hcomputed] at hstatic

end Kind

/-! ## §2. Logic that stores nothing. -/

/-- The operation stores a value without a check. -/
def Operation.Stores : Operation → Prop
  | .store .. => True
  | _ => False

/-- Whatever it is answered, the program never asks to store a value. -/
def Program.StoresNothing {α : Type} : Program α → Prop
  | .done _ => True
  | .ask op next => ¬ op.Stores ∧ ∀ answer, (next answer).StoresNothing

/-- Fields are kept under their own names, and none of the logic stores values
by itself. -/
structure Kind.Sound (k : Kind) : Prop where
  name : ∀ {field spec}, k.info.field? field = some spec → spec.name = field
  compute : ∀ {field logic}, k.compute? field = some logic →
    ∀ self values number, (logic self values number).StoresNothing
  init : ∀ {logic}, k.init = some logic → ∀ args number, (logic args number).StoresNothing
  idLogic : ∀ {logic}, k.idLogic = some logic → ∀ self number, (logic self number).StoresNothing

/-- All kinds of the catalog are sound. -/
def Catalog.Sound (c : Catalog) : Prop := ∀ key k, c.kinds.get? key = some k → k.Sound

/-- The kind is one of the catalog. -/
def Catalog.Has (c : Catalog) (k : Kind) : Prop := ∃ key, c.kinds.get? key = some k

/-- Every kind of a sound catalog is sound. -/
theorem Catalog.Sound.of_has {c : Catalog} (h : c.Sound) {k : Kind} (hk : c.Has k) : k.Sound := by
  obtain ⟨key, hkey⟩ := hk
  exact h key k hkey

/-- What a name leads to is a kind of the catalog. -/
theorem Catalog.has_of_get {c : Catalog} {name : String} {k : Kind} (h : c.get name = .ok k) :
    c.Has k := by
  unfold Catalog.get at h
  split at h
  · next k' hlookup =>
    cases h
    rcases Option.or_eq_some_iff.1 hlookup with hown | ⟨-, hrest⟩
    · exact ⟨name, hown⟩
    · obtain ⟨rest, -, hrest⟩ := Option.bind_eq_some_iff.1 hrest
      exact ⟨rest, hrest⟩
  · simp at h

/-! ## §3. Well-typed sessions. -/

namespace Session

/-- All kinds are sound, and every instance is of one of them and has a cache
that its kind holds. -/
structure WellTyped (s : Session) : Prop where
  catalog : s.catalog.Sound
  instances : ∀ {n i}, s.instance? n = some i → s.catalog.Has i.kind ∧ i.kind.Holds i.cache

/-- The kinds are the same, and every instance of the first session is one of
the second, of the same kind. -/
structure Extends (s t : Session) : Prop where
  catalog : t.catalog = s.catalog
  kinds : ∀ {n i}, s.instance? n = some i → ∃ j, t.instance? n = some j ∧ j.kind = i.kind

variable {s t u : Session}

/-- In a well-typed session the kind of every instance is sound. -/
theorem WellTyped.sound (h : s.WellTyped) {n : Nat} {i : Instance} (hi : s.instance? n = some i) :
    i.kind.Sound := h.catalog.of_has (h.instances hi).1

theorem Extends.refl (s : Session) : s.Extends s := ⟨rfl, fun hi => ⟨_, hi, rfl⟩⟩

/-- Sessions that extend one another in turn. -/
theorem Extends.trans (h : s.Extends t) (k : t.Extends u) : s.Extends u := by
  refine ⟨k.catalog.trans h.catalog, ?_⟩
  intro n i hi
  obtain ⟨j, hj, hkind⟩ := h.kinds hi
  obtain ⟨l, hl, hkind'⟩ := k.kinds hj
  exact ⟨l, hl, hkind'.trans hkind⟩

/-- Only the catalog and the instances count. -/
theorem WellTyped.congr (h : s.WellTyped) (hcatalog : t.catalog = s.catalog)
    (hinstances : t.instances = s.instances) : t.WellTyped ∧ s.Extends t := by
  have hsame : ∀ n, t.instance? n = s.instance? n := by
    intro n
    unfold instance?
    rw [hinstances]
  refine ⟨⟨hcatalog ▸ h.catalog, fun hi => ?_⟩, hcatalog, fun {n i} hi => ?_⟩
  · rw [hcatalog]
    exact h.instances (hsame _ ▸ hi)
  · exact ⟨i, (hsame n).trans hi, rfl⟩

/-- Changing one instance leaves the others as they are. -/
theorem instance?_modifyInstance (s : Session) (n m : Nat) (f : Instance → Instance) :
    (s.modifyInstance n f).instance? m = (s.instance? m).map fun i => if n = m then f i else i := by
  simp only [modifyInstance, instance?, List.getElem?_modify]
  by_cases h : n = m <;> simp [h]

/-- One instance changes, and stays what it is. -/
theorem WellTyped.modifyInstance (h : s.WellTyped) {n : Nat} {f : Instance → Instance}
    (hf : ∀ i, s.instance? n = some i → (f i).kind = i.kind ∧ i.kind.Holds (f i).cache) :
    (s.modifyInstance n f).WellTyped ∧ s.Extends (s.modifyInstance n f) := by
  constructor
  · refine ⟨h.catalog, ?_⟩
    intro m j hj
    rw [instance?_modifyInstance] at hj
    obtain ⟨i, hi, rfl⟩ := Option.map_eq_some_iff.1 hj
    by_cases hn : n = m
    · subst hn
      rw [if_pos rfl]
      obtain ⟨hkind, hholds⟩ := hf i hi
      rw [hkind]
      exact ⟨(h.instances hi).1, hholds⟩
    · rw [if_neg hn]
      exact h.instances hi
  · refine ⟨rfl, ?_⟩
    intro m i hi
    rw [instance?_modifyInstance, hi, Option.map_some]
    by_cases hn : n = m
    · subst hn
      rw [if_pos rfl]
      exact ⟨f i, rfl, (hf i hi).1⟩
    · rw [if_neg hn]
      exact ⟨i, rfl, rfl⟩

end Session

/-! ## §4. Safe actions. -/

namespace Action

variable {α β : Type}

/-- Whatever the action answers, it leaves a well-typed session in which every
instance has its kind still. -/
def SafeAt (a : Action α) (s : Session) : Prop :=
  ∀ r t, a.runOn s = some (r, t) → t.WellTyped ∧ s.Extends t

/-- The action does so from any well-typed session. -/
def Safe (a : Action α) : Prop := ∀ s : Session, s.WellTyped → a.SafeAt s

variable {a : Action α} {f : α → Action β} {s t : Session}

/-- An action whose only run ends in a well-typed extension is safe there. -/
theorem SafeAt.of_runOn {r : Except Error α} (hrun : a.runOn s = some (r, t))
    (h : t.WellTyped ∧ s.Extends t) : a.SafeAt s := by
  intro r' t' hrun'
  rw [hrun] at hrun'
  cases hrun'
  exact h

/-- The second action starts where the first one ended. -/
theorem SafeAt.bind (ha : a.SafeAt s)
    (hf : ∀ x t, a.runOn s = some (.ok x, t) → t.WellTyped → s.Extends t → (f x).SafeAt t) :
    (a >>= f).SafeAt s := by
  intro r u hrun
  rw [runOn_bind] at hrun
  cases hfirst : a.runOn s with
  | none => simp [hfirst] at hrun
  | some p =>
    obtain ⟨r', t⟩ := p
    obtain ⟨ht, hext⟩ := ha _ _ hfirst
    rw [hfirst] at hrun
    cases r' with
    | error e =>
      cases hrun
      exact ⟨ht, hext⟩
    | ok x =>
      obtain ⟨hu, hext'⟩ := hf x t hfirst ht hext r u hrun
      exact ⟨hu, hext.trans hext'⟩

/-- The second action is safe wherever it starts. -/
theorem SafeAt.andThen (ha : a.SafeAt s) (hf : ∀ x, (f x).Safe) : (a >>= f).SafeAt s :=
  ha.bind fun x t _ ht _ => hf x t ht

/-- An attempt is safe where the action is. -/
theorem SafeAt.attempt (h : a.SafeAt s) : (Action.attempt a).SafeAt s := by
  intro r t hrun
  obtain ⟨r', rfl, hattempted⟩ := runOn_of_attempt hrun
  exact h _ _ hattempted

namespace Safe

/-- Safe actions one after the other are safe. -/
theorem bind (ha : a.Safe) (hf : ∀ x, (f x).Safe) : (a >>= f).Safe :=
  fun s hs => (ha s hs).andThen hf

theorem attempt (h : a.Safe) : (Action.attempt a).Safe := fun s hs => (h s hs).attempt

/-- An action that changes nothing but perhaps the watches and the like. -/
theorem of_runOn (h : ∀ s : Session, s.WellTyped → ∃ r t, a.runOn s = some (r, t)
    ∧ t.WellTyped ∧ s.Extends t) : a.Safe := by
  intro s hs
  obtain ⟨r, t, hrun, ht⟩ := h s hs
  exact .of_runOn hrun ht

/-- An answer without a look at the session is safe. -/
theorem ofResult (r : Except Error α) : (Action.ofResult r).Safe :=
  of_runOn fun s hs => ⟨r, s, runOn_ofResult r s, hs, .refl s⟩

theorem pure (x : α) : (Pure.pure x : Action α).Safe :=
  of_runOn fun s hs => ⟨.ok x, s, runOn_pure x s, hs, .refl s⟩

theorem throw (e : Error) : (MonadExcept.throw e : Action α).Safe :=
  of_runOn fun s hs => ⟨.error e, s, runOn_throw e s, hs, .refl s⟩

theorem stuck : (Action.stuck : Action α).Safe := by
  intro s _ r t hrun
  simp at hrun

/-- Ignoring what a safe action answers is safe. -/
theorem ignore (h : a.Safe) : (Action.ignore a).Safe := bind (attempt h) fun _ => pure ()

/-- A safe action for every member of a list. -/
theorem forM {f : α → Action Unit} (h : ∀ x, (f x).Safe) : ∀ xs : List α, (xs.forM f).Safe
  | [] => pure ()
  | x :: xs => bind (h x) fun _ => forM h xs

/-- A safe action for every member of a list, whose answers are collected. -/
theorem mapM {f : α → Action β} (h : ∀ x, (f x).Safe) (xs : List α) : (xs.mapM f).Safe := by
  induction xs with
  | nil => exact pure []
  | cons x xs ih =>
    simp only [List.mapM_cons]
    exact bind (h x) fun _ => bind ih fun _ => pure _

/-- Looking at the session, and going on from there. -/
theorem get_bind {f : Session → Action β} (h : ∀ s : Session, s.WellTyped → (f s).SafeAt s) :
    ((MonadState.get : Action Session) >>= f).Safe := by
  intro s hs
  refine SafeAt.bind (.of_runOn Session.runOn_get ⟨hs, .refl s⟩) fun x t hrun _ _ => ?_
  cases hrun
  exact h s hs

end Safe

end Action

/-! ## §5. Small actions. -/

namespace Session

open LazyFields.Action (Safe SafeAt)

variable {s : Session} {n : Nat} {field : String}

/-- Looking at the session is safe. -/
theorem safe_get : (get : Action Session).Safe :=
  .of_runOn fun s hs => ⟨_, _, runOn_get, hs, .refl s⟩

/-- Watches, the journal and the table of published instances do not count. -/
theorem safe_modify {f : Session → Session} (hcatalog : ∀ s, (f s).catalog = s.catalog)
    (hinstances : ∀ s, (f s).instances = s.instances) : (modify f : Action PUnit).Safe :=
  .of_runOn fun s hs => ⟨_, _, runOn_modify f, hs.congr (hcatalog s) (hinstances s)⟩

/-- Setting the session is safe if catalog and instances stay. -/
theorem safeAt_set (hs : s.WellTyped) {t : Session} (hcatalog : t.catalog = s.catalog)
    (hinstances : t.instances = s.instances) : (set t : Action PUnit).SafeAt s :=
  .of_runOn (runOn_set t) (hs.congr hcatalog hinstances)

/-- The journal does not count. -/
theorem safe_note (e : Event) : (note e).Safe := safe_modify (fun _ => rfl) fun _ => rfl

/-- There is no answer about an instance that is not there. -/
theorem runOn_getInstance_of_none (h : s.instance? n = none) : (getInstance n).runOn s = none := by
  simp [getInstance, Action.runOn_bind, h]

/-- An instance that an action got is there. -/
theorem instance?_of_runOn {i : Instance} {t : Session}
    (h : (getInstance n).runOn s = some (.ok i, t)) : s.instance? n = some i ∧ t = s := by
  cases hi : s.instance? n with
  | none => simp [runOn_getInstance_of_none hi] at h
  | some j =>
    rw [runOn_getInstance hi] at h
    cases h
    exact ⟨rfl, rfl⟩

/-- Finding an instance is safe. -/
theorem safe_getInstance (n : Nat) : (getInstance n).Safe := by
  intro s hs
  cases hi : s.instance? n with
  | none =>
    intro r t hrun
    simp [runOn_getInstance_of_none hi] at hrun
  | some i => exact .of_runOn (runOn_getInstance hi) ⟨hs, .refl s⟩

/-- Asking whether the session runs is safe. -/
theorem safe_requireLive (n : Nat) : (requireLive n).Safe := by
  unfold requireLive
  refine .bind (safe_getInstance n) fun i => .bind safe_get fun s => ?_
  split
  · exact .pure ()
  · exact .throw _

/-- Looking at a cached result is safe. -/
theorem safe_cached? (n : Nat) (field : String) : (cached? n field).Safe :=
  .bind (safe_getInstance n) fun _ => .pure _

/-- The field of the instance is declared so. -/
def Declares (s : Session) (n : Nat) (field : String) (spec : FieldSpec) : Prop :=
  ∃ i, s.instance? n = some i ∧ i.kind.info.field? field = some spec

/-- A field that is declared stays declared. -/
theorem Declares.extend {spec : FieldSpec} {t : Session} (h : s.Declares n field spec)
    (hext : s.Extends t) : t.Declares n field spec := by
  obtain ⟨i, hi, hspec⟩ := h
  obtain ⟨j, hj, hkind⟩ := hext.kinds hi
  exact ⟨j, hj, hkind ▸ hspec⟩

/-- Finding a declared field is safe. -/
theorem safe_declared (n : Nat) (field : String) : (declared n field).Safe := by
  unfold declared
  refine .bind (safe_getInstance n) fun i => ?_
  split
  · exact .pure _
  · exact .throw _

/-- What is found is declared, and the session is as it was. -/
theorem declares_of_runOn {spec : FieldSpec} {t : Session}
    (h : (declared n field).runOn s = some (.ok spec, t)) : s.Declares n field spec ∧ t = s := by
  cases hi : s.instance? n with
  | none => simp [declared, Action.runOn_bind, runOn_getInstance_of_none hi] at h
  | some i =>
    cases hspec : i.kind.info.field? field with
    | none => simp [runOn_declared_of_none hi hspec] at h
    | some spec' =>
      rw [runOn_declared hi hspec] at h
      cases h
      exact ⟨⟨i, hi, hspec⟩, rfl⟩

/-- **A cache is changed** into one that the kind may hold. -/
theorem safeAt_onCache {α : Type} {f : Cache → α × Cache} (hs : s.WellTyped)
    (hf : ∀ i, s.instance? n = some i → i.kind.Holds (f i.cache).2) : (onCache n f).SafeAt s := by
  cases hi : s.instance? n with
  | none =>
    intro r t hrun
    simp [onCache, Action.runOn_bind, runOn_getInstance_of_none hi] at hrun
  | some i =>
    refine .of_runOn (runOn_onCache hi f) (hs.modifyInstance fun j hj => ⟨rfl, ?_⟩)
    rw [hi] at hj
    cases hj
    exact hf i hi

/-- A claim keeps the cache well-typed, since it stores no value. -/
theorem safe_claim (n : Nat) (field : String) (force : Bool) :
    (onCache n (·.claim field force)).Safe := by
  intro s hs
  refine safeAt_onCache hs fun i hi => ?_
  exact (hs.instances hi).2.congr fun f => i.cache.get?_claim field force f

/-- So does giving a claim back. -/
theorem safe_releaseField (n : Nat) (field : String) : (releaseField n field).Safe := by
  intro s hs
  refine safeAt_onCache hs fun i hi => ?_
  exact (hs.instances hi).2.congr fun f => i.cache.get?_release field f

/-- Storing an entry keeps the cache well-typed if the entry fits the computed
field. -/
theorem safeAt_storeEntry (hs : s.WellTyped) {spec : FieldSpec} (hspec : s.Declares n field spec)
    (hcomputed : spec.isStatic = false) {e : Entry} (he : e.Fits spec.type) :
    (storeEntry n field e).SafeAt s := by
  refine safeAt_onCache hs fun i hi => ?_
  obtain ⟨j, hj, hfield⟩ := hspec
  rw [hi] at hj
  cases hj
  exact (hs.instances hi).2.store hfield hcomputed he

end Session

end LazyFields
