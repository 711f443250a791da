/-
  LazyFields.Proofs.Session.Lasting
  ────────────────────────────────
  **WHAT OUTLASTS EVERY OPERATION.**

  A property of the watch graph that one more watch cannot break outlasts every
  operation, as long as nobody asks to stop a watcher that it depends on.  That is
  so not only between operations: a trigger is mostly an operation within another
  one, in the middle of which instances are under construction and fields are
  claimed, and there the property holds as well.

    · `Catalog.Upholds` — no logic of the catalog asks for what breaks the property;
      logic that stops no watcher (`Catalog.KeepsWatches`) breaks none
    · `Session.RunsOver` — instances are of the kinds of the catalog, and the watch
      graph is in order; this is kept along with the property
    · `Action.Outlasts` — whatever the first action answers on a session with the
      property, the second one answers too, and leaves the property; it is a
      congruence
    · `outlasts_step` — operations have this if the operations within them do
    · `Lasting.run`, `Performs.lasting` — so the property is there after an
      operation, and wherever an operation within it begins
-/
import LazyFields.Proofs.Catalog.Bound
import LazyFields.Proofs.Session.Calls
import LazyFields.Proofs.Session.Undisturbed
import LazyFields.Proofs.Session.Widening

namespace LazyFields

/-! ## §1. Logic that stops no watcher. -/

/-- The operation takes watches away. -/
def Operation.Unwatches : Operation → Prop
  | .unregister .. => True
  | _ => False

/-- Whatever it is answered, the program never asks to stop a watcher. -/
def Program.KeepsWatches {α : Type} : Program α → Prop
  | .done _ => True
  | .ask op next => ¬ op.Unwatches ∧ ∀ answer, (next answer).KeepsWatches

/-- None of the logic of the catalog asks to stop a watcher. -/
structure Catalog.KeepsWatches (c : Catalog) : Prop where
  compute : ∀ {k field logic}, c.Has k → k.compute? field = some logic →
    ∀ self values number, (logic self values number).KeepsWatches
  init : ∀ {k logic}, c.Has k → k.init = some logic →
    ∀ args number, (logic args number).KeepsWatches
  idLogic : ∀ {k logic}, c.Has k → k.idLogic = some logic →
    ∀ self number, (logic self number).KeepsWatches

/-- A program that asks nothing stops no watcher. -/
theorem Program.IsPassive.keepsWatches {α : Type} {p : Program α} (h : p.IsPassive) :
    p.KeepsWatches := by
  obtain ⟨r, rfl⟩ := h
  trivial

/-- A program that reads fields stops no watcher. -/
theorem Program.Reads.keepsWatches {α : Type} {n : Nat} {fields : String → Prop}
    {p : Program α} (h : p.Reads n fields) : p.KeepsWatches := by
  induction h with
  | done r => trivial
  | ask _ _ ih => exact ⟨id, ih⟩

/-- Logic that asks for no more than static fields stops no watcher. -/
theorem Catalog.KeepsWatches.of_alone {c : Catalog} (halone : c.ComputesAlone)
    (hprepares : c.PreparesAlone) (hidentifies : c.IdentifiesByStatics) : c.KeepsWatches where
  compute := by
    rintro k field logic ⟨key, hk⟩ hlogic self values number
    exact (halone hk hlogic self values number).keepsWatches
  init := by
    rintro k logic ⟨key, hk⟩ hlogic args number
    exact (hprepares hk hlogic args number).keepsWatches
  idLogic := by
    rintro k logic ⟨key, hk⟩ hlogic self number
    exact (hidentifies hk hlogic self number).keepsWatches

/-! ## §2. Properties of the watch graph. -/

/-- What the operation itself does to the watch graph does not break the property,
given that one more watch does not. -/
def Operation.Respects (W : WatchGraph FollowUp → Prop) : Operation → Prop
  | .unregister watcher => ∀ g, W g → W (g.unwatch watcher)
  | _ => True

/-- Whatever it is answered, the program asks for nothing that breaks the property. -/
def Program.Respects {α : Type} (W : WatchGraph FollowUp → Prop) : Program α → Prop
  | .done _ => True
  | .ask op next => op.Respects W ∧ ∀ answer, (next answer).Respects W

/-- One more watch does not break the property, and no logic of the catalog does. -/
structure Catalog.Upholds (c : Catalog) (W : WatchGraph FollowUp → Prop) : Prop where
  watch : ∀ {g}, W g → ∀ address watcher f, W (g.watch address watcher f).2
  compute : ∀ {k field logic}, c.Has k → k.compute? field = some logic →
    ∀ self values number, (logic self values number).Respects W
  init : ∀ {k logic}, c.Has k → k.init = some logic →
    ∀ args number, (logic args number).Respects W
  idLogic : ∀ {k logic}, c.Has k → k.idLogic = some logic →
    ∀ self number, (logic self number).Respects W

variable {c : Catalog} {W : WatchGraph FollowUp → Prop}

/-- What stops no watcher respects any watches. -/
theorem Operation.respects_of_not_unwatches {op : Operation} (h : ¬ op.Unwatches) :
    op.Respects W := by
  cases op with
  | unregister watcher => exact absurd trivial h
  | _ => trivial

/-- A program that stops no watcher respects any watches. -/
theorem Program.KeepsWatches.respects {α : Type} {p : Program α} (h : p.KeepsWatches) :
    p.Respects W := by
  induction p with
  | done r => trivial
  | ask op next ih => exact ⟨op.respects_of_not_unwatches h.1, fun answer => ih answer (h.2 answer)⟩

/-- Nothing breaks what always holds. -/
theorem Operation.respects_of_forall (h : ∀ g, W g) (op : Operation) : op.Respects W := by
  cases op with
  | unregister watcher => exact fun g _ => h _
  | _ => trivial

/-- Every program respects what holds of all watch graphs. -/
theorem Program.respects_of_forall {α : Type} (h : ∀ g, W g) (p : Program α) : p.Respects W := by
  induction p with
  | done r => trivial
  | ask op next ih => exact ⟨op.respects_of_forall h, ih⟩

/-- Logic that stops no watcher breaks nothing that watches keep. -/
theorem Catalog.KeepsWatches.upholds (h : c.KeepsWatches)
    (hwatch : ∀ {g}, W g → ∀ address watcher f, W (g.watch address watcher f).2) :
    c.Upholds W where
  watch := hwatch
  compute hk hlogic self values number := (h.compute hk hlogic self values number).respects
  init hk hlogic args number := (h.init hk hlogic args number).respects
  idLogic hk hlogic self number := (h.idLogic hk hlogic self number).respects

/-- Every catalog upholds what holds of all watch graphs. -/
theorem Catalog.upholds_of_forall (c : Catalog) (h : ∀ g, W g) : c.Upholds W where
  watch _ _ _ _ := h _
  compute _ _ _ _ _ := Program.respects_of_forall h _
  init _ _ _ _ := Program.respects_of_forall h _
  idLogic _ _ _ _ := Program.respects_of_forall h _

/-! ## §3. Sessions over a catalog. -/

namespace Session

variable {s t : Session}

/-- The instances are of the kinds of the catalog, and the two tables of the watch
graph are inverse.  This holds while operations are under way as well. -/
structure RunsOver (c : Catalog) (s : Session) : Prop where
  catalog : s.catalog = c
  kind : ∀ {n m}, s.outline.member? n = some m → c.Has m.kind
  inverse : s.watches.Inverse

/-- Only outline and watch graph count. -/
theorem RunsOver.congr (h : s.RunsOver c) (houtline : t.outline = s.outline)
    (hwatches : t.watches = s.watches) : t.RunsOver c where
  catalog := (congrArg Outline.catalog houtline).trans h.catalog
  kind hm := h.kind (houtline ▸ hm)
  inverse := hwatches ▸ h.inverse

/-- One more watch. -/
theorem RunsOver.watching (h : s.RunsOver c) (address watcher : String) (f : FollowUp) :
    (s.watching address watcher f).RunsOver c :=
  ⟨h.catalog, h.kind, h.inverse.watch address watcher f⟩

/-- One instance gets an id, or is discarded. -/
theorem RunsOver.modifyInstance (h : s.RunsOver c) {g : Instance → Instance}
    (hg : ∀ i, (g i).kind = i.kind) (n : Nat) : (s.modifyInstance n g).RunsOver c := by
  refine ⟨h.catalog, ?_, h.inverse⟩
  intro k m hm
  rw [member?_outline, instance?_modifyInstance, Option.map_map] at hm
  obtain ⟨i, hi, rfl⟩ := Option.map_eq_some_iff.1 hm
  have hkind : (((fun i : Instance => i.member) ∘ fun i => if n = k then g i else i) i).kind
      = i.member.kind := by
    by_cases hn : n = k
    · simp only [Function.comp_apply, hn, if_true]
      exact hg i
    · simp only [Function.comp_apply, hn, if_false]
  rw [hkind]
  exact h.kind (member?_of_instance hi)

/-- An instance of a kind of the catalog is numbered. -/
theorem RunsOver.allocated (h : s.RunsOver c) {k : Kind} (hk : c.Has k) (cache : Cache) :
    (s.allocated k cache).RunsOver c := by
  refine ⟨h.catalog, ?_, h.inverse⟩
  intro n m hm
  rw [member?_outline] at hm
  obtain ⟨i, hi, rfl⟩ := Option.map_eq_some_iff.1 hm
  have hmem : i ∈ s.instances ++ [⟨k, "", cache, false⟩] := List.mem_of_getElem? hi
  rcases List.mem_append.1 hmem with hold | hnew
  · obtain ⟨n', hn'⟩ := List.getElem?_of_mem hold
    exact h.kind (member?_of_instance (s := s) hn')
  · rw [List.mem_singleton.1 hnew]
    exact hk

/-- The session runs over the catalog, and its watch graph has the property. -/
structure Lasting (c : Catalog) (W : WatchGraph FollowUp → Prop) (s : Session) : Prop where
  runsOver : s.RunsOver c
  holds : W s.watches

/-- What leaves the watch graph alone leaves the property. -/
theorem Lasting.carried (h : s.Lasting c W) (k : t.RunsOver c) (hwatches : t.watches = s.watches) :
    t.Lasting c W := ⟨k, hwatches ▸ h.holds⟩

end Session

/-! ## §4. Two runs of an action. -/

namespace Action

variable {α β : Type} {a b : Action α} {f g : α → Action β} {s t : Session}

/-- An attempt of a copy is a copy of the attempt. -/
theorem Copies.attempt {P : Session → Prop} {Q : Except Error α → Session → Prop}
    (h : Copies P a b Q) :
    Copies P (Action.attempt a) (Action.attempt b) fun r t => ∃ r', r = .ok r' ∧ Q r' t := by
  intro s hs r t hrun
  obtain ⟨r', rfl, hrun'⟩ := runOn_of_attempt hrun
  obtain ⟨hcopy, hq⟩ := h s hs r' t hrun'
  refine ⟨?_, r', rfl, hq⟩
  rw [runOn_attempt, hcopy]
  rfl

/-- Whatever the first action answers on a session with the property, the second one
answers too, and the property is still there. -/
def Outlasts (c : Catalog) (W : WatchGraph FollowUp → Prop) (a b : Action α) : Prop :=
  Copies (Session.Lasting c W) a b fun _ => Session.Lasting c W

namespace Outlasts

/-- What changes neither outline nor watch graph lets all last. -/
theorem inert (h : Inert a) : Outlasts c W a a := by
  refine .same ?_
  intro s hs r t hrun
  obtain ⟨houtline, hwatches⟩ := h s r t hrun
  exact hs.carried (hs.runsOver.congr houtline hwatches) hwatches

/-- **What outlasts the parts outlasts the whole.** -/
theorem congruence (c : Catalog) (W : WatchGraph FollowUp → Prop) :
    Congruence fun _ a b => Outlasts c W a b where
  inert := inert
  bind h k := Copies.bind h k fun _ _ ht => ht
  attempt h := (Copies.attempt h).mono fun _ _ ⟨_, _, ht⟩ => ht

/-- What outlasts both parts outlasts the whole. -/
theorem bind (h : Outlasts c W a b) (k : ∀ x, Outlasts c W (f x) (g x)) :
    Outlasts c W (a >>= f) (b >>= g) := (congruence c W).bind h k

/-- A change of the session that leaves the property. -/
theorem modify {g : Session → Session} (h : ∀ s : Session, s.Lasting c W → (g s).Lasting c W) :
    Outlasts c W (modify g : Action PUnit) (modify g) := by
  refine .same ?_
  intro s hs r t hrun
  cases hrun
  exact h s hs

/-- An action that has no answer without an instance. -/
theorem of_instance {n : Nat} (hnone : ∀ s : Session, s.instance? n = none → a.runOn s = none)
    (h : ∀ (s : Session) i, s.Lasting c W → s.instance? n = some i →
      Copies (· = s) a b fun _ => Session.Lasting c W) : Outlasts c W a b := by
  refine .of_forall fun s hs => ?_
  cases hi : s.instance? n with
  | none =>
    intro u hu r t hrun
    simp [hu, hnone s hi] at hrun
  | some i => exact h s i hs hi

end Outlasts

end Action

open LazyFields.Action (Copies Outlasts)

/-- Whatever the performer is asked that does not break the property. -/
def Performer.Outlasts (c : Catalog) (W : WatchGraph FollowUp → Prop) (call call' : Performer) :
    Prop := ∀ op : Operation, op.Respects W → Action.Outlasts c W (call op) (call' op)

/-- Operations within others are among all operations. -/
theorem Performer.Outlasts.inner {call call' : Performer} (h : call.Outlasts c W call')
    (op : Operation) (hop : op.IsInner) : Action.Outlasts c W (call op) (call' op) := by
  refine h op ?_
  cases op with
  | unregister => exact hop.elim
  | _ => trivial

namespace Session

open LazyFields.Action (Inert)

variable {s t : Session} {call call' : Performer} {n : Nat} {field : String} {k : Kind}

section Performing

variable (hc : c.Upholds W) (h : call.Outlasts c W call')

/-! ## §5. Logic. -/

include h

/-- A program outlasts if what it asks does. -/
theorem outlasts_program {α : Type} {p : Program α} (hp : p.Respects W) :
    Outlasts c W (p.run call) (p.run call') := by
  induction p with
  | done r => exact .inert (.ofResult r)
  | ask op next ih =>
    exact .bind ((Outlasts.congruence c W).attempt (h op hp.1)) fun answer => ih answer (hp.2 answer)

include hc

/-- Running logic outlasts. -/
theorem outlasts_runLogic (n : Nat) (info : FieldSpec) (field : String) (values : List Value) :
    Outlasts c W (runLogic call n info field values) (runLogic call' n info field values) := by
  have C := Outlasts.congruence c W
  refine .of_instance (n := n) (fun s hi => ?_) fun s i hs hi => ?_
  · simp [runLogic, Action.runOn_bind, runOn_getInstance_of_none hi]
  · -- the logic is one of the catalog, because the instance is of one of its kinds
    have hk : c.Has i.kind := hs.runsOver.kind (member?_of_instance hi)
    unfold runLogic
    refine .next (runOn_getInstance hi) (Copies.of_imp ?_ fun _ heq => heq ▸ hs)
    split
    · exact Outlasts.inert (inert_conclude n field _)
    · next logic hlogic =>
      exact C.bind (C.inert (inert_note _)) fun _ => C.bind (C.inert inert_get) fun u =>
        C.bind (C.attempt (outlasts_program h (hc.compute hk hlogic _ _ _))) fun _ =>
          C.inert (inert_conclude n field _)

/-- So does what runs before construction. -/
theorem outlasts_prepare (hk : c.Has k) (args : Args) :
    Outlasts c W (prepare call k args) (prepare call' k args) := by
  have C := Outlasts.congruence c W
  unfold prepare
  split
  · exact C.pure _
  · next logic hlogic =>
    exact C.bind (C.inert (inert_note _)) fun _ => C.bind (C.inert inert_get) fun _ =>
      outlasts_program h (hc.init hk hlogic _ _)

/-- And choosing the id. -/
theorem outlasts_chooseId (hk : c.Has k) (n : Nat) (forced : Option String) :
    Outlasts c W (chooseId call k n forced) (chooseId call' k n forced) := by
  have C := Outlasts.congruence c W
  unfold chooseId
  split
  · exact C.pure _
  · exact C.pure _
  · next logic _ hlogic =>
    exact C.bind (C.inert (inert_note _)) fun _ => C.bind (C.inert inert_get) fun _ =>
      outlasts_program h (hc.idLogic hk hlogic _ _)

/-! ## §6. Watching. -/

omit hc

/-- What follows a target goes on from the session with the watch. -/
theorem outlasts_following (hs : s.RunsOver c) {i : Instance} (hi : s.instance? n = some i)
    (target : Target)
    (hw : W (s.watches.watch target.address (i.fieldAddress field) (.recompute n field)).2) :
    Copies (· = s) (follow call target n field) (follow call' target n field)
      fun _ => Lasting c W := by
  have C := Outlasts.congruence c W
  have hwatching : (s.watching target.address (i.fieldAddress field) (.recompute n field)).Lasting
      c W := ⟨hs.watching .., hw⟩
  unfold follow
  refine .next (runOn_getInstance hi) (.next runOn_get (.next (runOn_set _) ?_))
  refine Copies.of_imp (P := Lasting c W) ?_ fun _ heq => heq ▸ hwatching
  split
  · exact C.pure ()
  · split
    · exact C.pure ()
    · exact C.bind (h.inner _ trivial) fun _ => C.ignore (h.inner _ trivial)

/-- A declared field goes on from the session with the watch. -/
theorem outlasts_watching (hs : s.RunsOver c) {i : Instance} (hi : s.instance? n = some i)
    {spec : FieldSpec} (hspec : i.kind.info.field? field = some spec) (watcher : String)
    (hw : W (s.watches.watch (i.fieldAddress field) watcher (.report n field watcher)).2) :
    Copies (· = s) (watchField call n field watcher) (watchField call' n field watcher)
      fun _ => Lasting c W := by
  have C := Outlasts.congruence c W
  have hwatching : (s.watching (i.fieldAddress field) watcher (.report n field watcher)).Lasting
      c W := ⟨hs.watching .., hw⟩
  unfold watchField
  refine .next (runOn_declared hi hspec) (.next (runOn_getInstance hi) (.next runOn_get ?_))
  refine .next (runOn_set _) (Copies.of_imp (P := Lasting c W) ?_ fun _ heq => heq ▸ hwatching)
  split
  · exact C.pure ()
  · split
    · refine C.bind (h.inner _ trivial) fun _ => C.bind (C.attempt (h.inner _ trivial)) fun a => ?_
      split
      · exact C.pure ()
      · exact C.runFollowUp h.inner _
    · refine C.bind (C.inert (inert_cached? n field)) fun cached => ?_
      split
      · exact C.inert (inert_note _)
      · exact C.pure ()

include hc

/-- Following a target adds a watch and takes none away. -/
theorem outlasts_follow (target : Target) (n : Nat) (field : String) :
    Outlasts c W (follow call target n field) (follow call' target n field) := by
  refine .of_instance (n := n) (fun s hi => ?_) fun s i hs hi => ?_
  · simp [follow, Action.runOn_bind, runOn_getInstance_of_none hi]
  · exact outlasts_following h hs.runsOver hi target (hc.watch hs.holds ..)

/-- So does registering a field. -/
theorem outlasts_register (n : Nat) (field : String) :
    Outlasts c W (register call n field) (register call' n field) := by
  have C := Outlasts.congruence c W
  unfold register
  refine C.bind (C.inert (inert_declared n field)) fun info => ?_
  split
  · exact C.pure ()
  · exact C.bind (C.inert (inert_requireLive n)) fun _ => C.forM (fun reference =>
      C.bind (C.inert (inert_targetOf n reference)) fun target =>
        outlasts_follow hc h target n field) _

/-- And watching one. -/
theorem outlasts_watchField (n : Nat) (field watcher : String) :
    Outlasts c W (watchField call n field watcher) (watchField call' n field watcher) := by
  refine .of_instance (n := n) (fun s hi => ?_) fun s i hs hi => ?_
  · simp [watchField, declared, Action.runOn_bind, runOn_getInstance_of_none hi]
  · cases hspec : i.kind.info.field? field with
    | none =>
      refine .of_runOn (r := .error (.unknownField i.kind.name field)) (t := s) ?_ ?_ hs
      · rw [watchField, Action.runOn_bind, runOn_declared_of_none hi hspec]
      · rw [watchField, Action.runOn_bind, runOn_declared_of_none hi hspec]
    | some spec => exact outlasts_watching h hs.runsOver hi hspec watcher (hc.watch hs.holds ..)

/-! ## §7. Instances. -/

omit hc h

/-- A change of an instance that keeps its kind outlasts. -/
theorem outlasts_modifyInstance {g : Instance → Instance} (hg : ∀ i, (g i).kind = i.kind)
    (n : Nat) : Outlasts c W (modify (·.modifyInstance n g) : Action PUnit)
      (modify (·.modifyInstance n g)) :=
  .modify fun _ hs => hs.carried (hs.runsOver.modifyInstance hg n) rfl

/-- So does discarding it. -/
theorem outlasts_discard (n : Nat) : Outlasts c W (discard n) (discard n) :=
  outlasts_modifyInstance (g := fun i => { i with discarded := true }) (fun _ => rfl) n

include h

/-- Publishing an instance outlasts: what was published stays. -/
theorem outlasts_publish (k : Kind) (n : Nat) (id : String) :
    Outlasts c W (publish call k n id) (publish call' k n id) := by
  have C := Outlasts.congruence c W
  unfold publish
  refine .bind (outlasts_modifyInstance (g := fun i => { i with id }) (fun _ => rfl) n) fun _ => ?_
  refine .of_forall fun s hs => .next runOn_get ?_
  dsimp only
  split
  · refine Copies.of_imp (P := Lasting c W) ?_ fun _ heq => heq ▸ hs
    exact C.bind (outlasts_discard n) fun _ => C.pure _
  · have hpublished : Lasting c W { s with
        published := s.published.insert (instanceAddress k.name id) n } :=
      ⟨⟨hs.runsOver.catalog, hs.runsOver.kind, hs.runsOver.inverse⟩, hs.holds⟩
    refine .next (runOn_set _) (Copies.of_imp (P := Lasting c W) ?_ fun _ heq => heq ▸ hpublished)
    exact C.bind (C.forM (C.wake h.inner n) _) fun _ => C.pure _

include hc

/-- So does construction. -/
theorem outlasts_construct (hk : c.Has k) (args : Args) :
    Outlasts c W (construct call k args) (construct call' k args) := by
  have C := Outlasts.congruence c W
  unfold construct
  refine C.bind (C.ofResult _) fun taken => C.bind (C.inert inert_get) fun now =>
    C.bind (C.ofResult _) fun cache => C.bind ?_ fun n =>
      C.bind (C.attempt (outlasts_chooseId hc h hk n _)) fun chosen => ?_
  · refine .same fun s hs r t hrun => ?_
    cases (runOn_allocate s k cache).symm.trans hrun
    exact hs.carried (hs.runsOver.allocated hk cache) rfl
  · cases chosen with
    | ok id => exact outlasts_publish h k n id
    | error e => exact C.bind (outlasts_discard n) fun _ => C.throw e

/-- So does creating an instance. -/
theorem outlasts_create (kind : String) (args : Args) :
    Outlasts c W (create call kind args) (create call' kind args) := by
  have C := Outlasts.congruence c W
  refine .of_forall fun s hs => .next runOn_get ?_
  cases hget : s.catalog.get kind with
  | error e =>
    refine .of_runOn (r := .error e) (t := s) ?_ ?_ hs
    · rw [Action.runOn_bind, Action.runOn_ofResult]
    · rw [Action.runOn_bind, Action.runOn_ofResult]
  | ok k =>
    have hk : c.Has k := Catalog.has_of_get (hs.runsOver.catalog ▸ hget)
    refine .next (Action.runOn_ofResult _ s) ?_
    refine Copies.of_imp (P := Lasting c W) ?_ fun _ heq => heq ▸ hs
    refine C.bind (outlasts_prepare hc h hk args) fun prepared => ?_
    cases prepared with
    | existing r => exact C.pure r
    | proceed args => exact outlasts_construct hc h hk args

/-! ## §8. Operations. -/

/-- **An operation has what the operations within it have.** -/
theorem outlasts_step : Performer.Outlasts c W (step call) (step call') := by
  have C := Outlasts.congruence c W
  intro op hop
  cases op with
  | register n field => exact outlasts_register hc h n field
  | create kind args => exact outlasts_create hc h kind args
  | watch n field watcher => exact outlasts_watchField hc h n field watcher
  | watchCompute n field follower followerField =>
    exact C.bind (C.inert (inert_getInstance n)) fun i => outlasts_follow hc h _ follower _
  | unregister watcher =>
    exact .modify fun s hs => ⟨⟨hs.runsOver.catalog, hs.runsOver.kind,
      hs.runsOver.inverse.unwatch watcher⟩, hop _ hs.holds⟩
  | _ => exact C.step h.inner (outlasts_runLogic hc h) id

end Performing

/-- **Every operation lets watches last** that its catalog upholds. -/
theorem outlasts_perform (hc : c.Upholds W) (fuel : Nat) :
    (perform fuel).Outlasts c W (perform fuel) := by
  induction fuel with
  | zero => exact fun _ _ => .inert .stuck
  | succ fuel ih => exact outlasts_step hc ih

variable {fuel : Nat} {op inner : Operation}

/-- **The property outlasts an operation.** -/
theorem Lasting.run (hs : s.Lasting c W) (hc : c.Upholds W) (hop : op.Respects W)
    {r : Except Error op.Answer} (hrun : s.run fuel op = some (r, t)) : t.Lasting c W :=
  (outlasts_perform hc fuel op hop s hs r t hrun).2

/-- **It is there in the middle of an operation.**  Without the answer to an operation within
it that begins where the property does not hold, the whole would be answered the same. -/
theorem Performs.lasting (h : Performs fuel op s inner t) (hs : s.Lasting c W)
    (hc : c.Upholds W) (hop : op.Respects W) : t.Lasting c W := by
  obtain ⟨hanswer, hstuck⟩ := h
  by_contra hnot
  -- every session on the way has the property, so the missing answer is never asked for
  have hwithout : (perform fuel).Outlasts c W ((perform fuel).without inner t) := by
    intro op' hop' u hu r v hrun
    obtain ⟨-, hv⟩ := outlasts_perform hc fuel op' hop' u hu r v hrun
    refine ⟨?_, hv⟩
    have hother : ¬ (op' = inner ∧ u = t) := fun heq => hnot (heq.2 ▸ hu)
    exact (if_neg hother).trans hrun
  obtain ⟨⟨r, u⟩, hrun⟩ := Option.isSome_iff_exists.1 hanswer
  obtain ⟨hsame, -⟩ := outlasts_step hc hwithout op hop s hs r u hrun
  rw [hstuck] at hsame
  cases hsame

end Session

end LazyFields
