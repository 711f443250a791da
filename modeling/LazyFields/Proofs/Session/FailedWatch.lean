/-
  LazyFields.Proofs.Session.FailedWatch
  ────────────────────────────────
  **WHAT A FAILED REGISTRATION LEAVES.**

  To register a field, to watch it from outside and to follow it from another
  field all enter a watch first and look after it then: what is watched for
  the first time is registered and computed, and that can fail.  The watch
  stays, and the next time it is taken for one that was looked after.

    · `firstWatch` — the first watch that an operation would enter, or the error
      that comes before it
    · `failsWatching_run` — a failed operation was refused before that watch, and
      nothing has changed, or it leaves it
    · `failed_watch_stays` — so the watch graph is unchanged exactly if the
      operation was refused, and otherwise it succeeds the next time
    · `undeclared_follow_stays` — to follow a field that was never declared fails
      once
-/
import LazyFields.Proofs.Session.Provenance

namespace LazyFields

/-! ## §1. The first watch. -/

/-- The operation enters watches on its own account. -/
def Operation.Enters : Operation → Prop
  | .register .. | .watch .. | .watchCompute .. => True
  | _ => False

/-- The operation enters one watch for each of its references. -/
def Operation.IsRegister : Operation → Prop
  | .register .. => True
  | _ => False

namespace Session

open LazyFields.Action

variable {c : Catalog} {s t : Session} {call : Performer} {fuel n : Nat} {field : String}
  {i : Instance} {e : Error} {op : Operation}

/-- The first reference that a field does not follow yet: under which address and name
it would, or why it cannot be looked up. -/
def firstFollow (s : Session) (n : Nat) (i : Instance) (field : String) :
    List String → Option (Except Error (String × String))
  | [] => none
  | reference :: refs =>
      match s.view.outline.aim n i.member reference with
      | .error e => some (.error e)
      | .ok target =>
          if (s.watches.callbacks target.address).contains (i.fieldAddress field) then
            s.firstFollow n i field refs
          else some (.ok (target.address, i.fieldAddress field))

/-- The watch, unless it is there already. -/
def newWatch? (s : Session) (address watcher : String) : Option (Except Error (String × String)) :=
  if (s.watches.callbacks address).contains watcher then none else some (.ok (address, watcher))

/-- The first watch that an operation would enter, as an address and a watcher, or the
error with which it is refused before; nothing, if it enters none. -/
def firstWatch (s : Session) : Operation → Option (Except Error (String × String))
  | .register n field => (s.instance? n).bind fun i =>
      match i.kind.info.field? field with
      | none => some (.error (.unknownField i.kind.name field))
      | some spec =>
          if spec.refs.isEmpty then none
          else if s.live then s.firstFollow n i field spec.refs
          else some (.error (.failure ("runtime of \"" ++ i.kind.name ++ "\" was dropped")))
  | .watch n field watcher => (s.instance? n).bind fun i =>
      match i.kind.info.field? field with
      | none => some (.error (.unknownField i.kind.name field))
      | some _ => s.newWatch? (i.fieldAddress field) watcher
  | .watchCompute n field follower followerField => (s.instance? n).bind fun i =>
      (s.instance? follower).bind fun j =>
        s.newWatch? (i.fieldAddress field) (j.fieldAddress followerField)
  | _ => none

/-! ## §2. How registrations fail. -/

/-- What a failed operation leaves, by the first watch that it would enter: it was refused
before that and nothing has changed, or the watch is new and stays, unless logic
stops watchers. -/
inductive FailsWatching (c : Catalog) (s : Session) (e : Error) (t : Session) :
    Option (Except Error (String × String)) → Prop
  | refused (h : t = s) : FailsWatching c s e t (some (.error e))
  | entered {address watcher : String} (hnew : ¬ s.watches.Lists address watcher)
      (hstays : c.KeepsWatches → t.watches.Lists address watcher) :
      FailsWatching c s e t (some (.ok (address, watcher)))

theorem lists_iff_contains {address watcher : String} :
    s.watches.Lists address watcher
      ↔ (s.watches.callbacks address).contains watcher = true :=
  WatchGraph.lists_iff_callbacks

/-- What goes on from the session with a new watch has entered it. -/
theorem FailsWatching.of_carries {address watcher : String} {f : FollowUp}
    (hnew : (s.watches.callbacks address).contains watcher = false)
    (h : (s.watching address watcher f).Carries c t) :
    FailsWatching c s e t (some (.ok (address, watcher))) := by
  refine .entered (fun hlists => ?_) fun hkeeps => ?_
  · rw [lists_iff_contains, hnew] at hlists
    cases hlists
  · exact h.lists hkeeps (WatchGraph.lists_watch.2 (.inl ⟨rfl, rfl⟩))

/-- Following once more changes nothing. -/
theorem runOn_follow_of_contains (hs : s.RunsOver c) (hi : s.instance? n = some i)
    {target : Target}
    (h : (s.watches.callbacks target.address).contains (i.fieldAddress field) = true) :
    (follow call target n field).runOn s = some (.ok (), s) := by
  have hfilled : (s.watches.callbacks target.address).isEmpty = false :=
    WatchGraph.isEmpty_eq_false_of_contains h
  rw [runOn_follow hi, watching_eq_self hs.inverse (lists_iff_contains.2 h)]
  simp only [hfilled, Bool.false_eq_true, if_false, runOn_pure]

/-- Watching once more changes nothing. -/
theorem runOn_watchField_of_contains (hs : s.RunsOver c) (hi : s.instance? n = some i)
    {spec : FieldSpec} (hspec : i.kind.info.field? field = some spec) {watcher : String}
    (h : (s.watches.callbacks (i.fieldAddress field)).contains watcher = true) :
    (watchField call n field watcher).runOn s = some (.ok (), s) := by
  have hsame : s.watching (i.fieldAddress field) watcher (.report n field watcher) = s :=
    watching_eq_self hs.inverse (lists_iff_contains.2 h)
  rw [watchField, runOn_bind_ok (runOn_declared hi hspec), runOn_bind_ok (runOn_getInstance hi),
    runOn_bind_ok runOn_get]
  refine (runOn_bind_ok (runOn_set _)).trans ?_
  refine (congrArg (fun a => Action.runOn a _) (if_pos h)).trans ?_
  exact congrArg (fun u => some (Except.ok (), u)) hsame

theorem failsWatching_newWatch {address watcher : String} {f : FollowUp}
    (hnew : (s.watches.callbacks address).contains watcher = false)
    (h : (s.watching address watcher f).Carries c t) :
    FailsWatching c s e t (s.newWatch? address watcher) := by
  rw [newWatch?, hnew]
  exact .of_carries hnew h

theorem retains_references (c : Catalog) (fuel n : Nat) (field : String) (refs : List String) :
    Retains c (refs.forM (followReference (perform fuel) n field)) := by
  refine .of_outlasts fun W hW => (Outlasts.congruence c W).forM (fun reference => ?_) refs
  exact .bind (.inert (inert_targetOf n reference)) fun target =>
    outlasts_follow hW (outlasts_perform hW fuel) target n field

/-- The loop of a registration: references that are followed already are passed by. -/
theorem failsWatching_references (hs : s.RunsOver c) (hi : s.instance? n = some i)
    (refs : List String)
    (hrun : (refs.forM (followReference (perform fuel) n field)).runOn s = some (.error e, t)) :
    FailsWatching c s e t (s.firstFollow n i field refs) := by
  induction refs with
  | nil => simp at hrun
  | cons reference refs ih =>
    have haim := runOn_aim hi reference
    change (followReference (perform fuel) n field reference >>= fun _ =>
      refs.forM (followReference (perform fuel) n field)).runOn s = _ at hrun
    rw [firstFollow]
    cases htarget : s.view.outline.aim n i.member reference with
    | error e' =>
      rw [htarget] at haim
      simp only [followReference, runOn_bind, haim] at hrun
      cases hrun
      exact .refused rfl
    | ok target =>
      rw [htarget] at haim
      have hfollow : (followReference (perform fuel) n field reference).runOn s
          = (follow (perform fuel) target n field).runOn s := runOn_bind_ok haim
      cases hknown : (s.watches.callbacks target.address).contains (i.fieldAddress field) with
      | true =>
        simp only [hknown, if_true]
        rw [runOn_bind_ok (hfollow.trans (runOn_follow_of_contains hs hi hknown))] at hrun
        exact ih hrun
      | false =>
        -- the rest of the loop goes on from the session with the new watch
        simp only [hknown, Bool.false_eq_true, if_false]
        have hfirst : (followReference (perform fuel) n field reference).Returns s fun _ u =>
            (s.watching target.address (i.fieldAddress field) (.recompute n field)).Carries c u :=
          fun r u hu => carries_follow hs hi fuel target field r u (hfollow.symm.trans hu)
        refine .of_carries hknown (hfirst.bind (R := fun _ u => Carries c _ u) (fun _ u hu => ?_)
          (fun _ _ hu => hu) _ _ hrun)
        exact (retains_references c fuel n field refs u hu.runsOver).mono fun _ _ hw => hu.trans hw

theorem failsWatching_register (hs : s.RunsOver c)
    (hrun : (register (perform fuel) n field).runOn s = some (.error e, t)) :
    FailsWatching c s e t (s.firstWatch (.register n field)) := by
  cases hi : s.instance? n with
  | none => simp [register, declared, runOn_bind, runOn_getInstance_of_none hi] at hrun
  | some i =>
    rw [firstWatch, hi, Option.bind_some]
    cases hspec : i.kind.info.field? field with
    | none =>
      rw [register, runOn_bind, runOn_declared_of_none hi hspec] at hrun
      cases hrun
      exact .refused rfl
    | some spec =>
      rw [register, runOn_bind_ok (runOn_declared hi hspec)] at hrun
      -- without references there is nothing that could fail
      cases hrefs : spec.refs.isEmpty with
      | true => simp [hrefs] at hrun
      | false =>
        simp only [hrefs, Bool.false_eq_true, if_false] at hrun ⊢
        cases hlive : s.live with
        | false =>
          rw [runOn_bind, runOn_requireLive_of_ended hi hlive] at hrun
          cases hrun
          exact .refused rfl
        | true =>
          rw [runOn_bind_ok (runOn_requireLive hi hlive)] at hrun
          exact failsWatching_references hs hi spec.refs hrun

theorem failsWatching_watchField (hs : s.RunsOver c) {watcher : String}
    (hrun : (watchField (perform fuel) n field watcher).runOn s = some (.error e, t)) :
    FailsWatching c s e t (s.firstWatch (.watch n field watcher)) := by
  cases hi : s.instance? n with
  | none => simp [watchField, declared, runOn_bind, runOn_getInstance_of_none hi] at hrun
  | some i =>
    rw [firstWatch, hi, Option.bind_some]
    cases hspec : i.kind.info.field? field with
    | none =>
      rw [watchField, runOn_bind, runOn_declared_of_none hi hspec] at hrun
      cases hrun
      exact .refused rfl
    | some spec =>
      cases hknown : (s.watches.callbacks (i.fieldAddress field)).contains watcher with
      | true =>
        rw [runOn_watchField_of_contains hs hi hspec hknown] at hrun
        cases hrun
      | false =>
        exact failsWatching_newWatch hknown (carries_watchField hs hi hspec fuel watcher _ _ hrun)

/-- Whether the field is declared is not looked up before it is watched. -/
theorem failsWatching_watchCompute (hs : s.RunsOver c) {follower : Nat} {followerField : String}
    (hrun : (watchCompute (perform fuel) n field follower followerField).runOn s
      = some (.error e, t)) :
    FailsWatching c s e t (s.firstWatch (.watchCompute n field follower followerField)) := by
  cases hi : s.instance? n with
  | none => simp [watchCompute, runOn_bind, runOn_getInstance_of_none hi] at hrun
  | some i =>
    rw [watchCompute, runOn_bind_ok (runOn_getInstance hi)] at hrun
    cases hj : s.instance? follower with
    | none => simp [follow, runOn_bind, runOn_getInstance_of_none hj] at hrun
    | some j =>
      rw [firstWatch, hi, hj, Option.bind_some, Option.bind_some]
      cases hknown : (s.watches.callbacks (i.fieldAddress field)).contains
          (j.fieldAddress followerField) with
      | true =>
        rw [runOn_follow_of_contains hs hj hknown] at hrun
        cases hrun
      | false =>
        exact failsWatching_newWatch hknown (carries_follow hs hj fuel _ _ _ _ hrun)

/-- **A failed operation was refused before its first watch, or has entered it.** -/
theorem failsWatching_run (hs : s.RunsOver c) (hop : op.Enters) {fuel : Nat}
    (hrun : s.run fuel op = some (.error e, t)) : FailsWatching c s e t (s.firstWatch op) := by
  cases fuel with
  | zero => simp [Session.run, perform] at hrun
  | succ fuel =>
    cases op with
    | register n field => exact failsWatching_register hs hrun
    | watch n field watcher => exact failsWatching_watchField hs hrun
    | watchCompute n field follower followerField => exact failsWatching_watchCompute hs hrun
    | _ => exact hop.elim

/-! ## §3. The next time. -/

theorem eq_of_newWatch? {address watcher address' watcher' : String}
    (h : s.newWatch? address watcher = some (.ok (address', watcher'))) :
    address = address' ∧ watcher = watcher' := by
  unfold newWatch? at h
  split at h
  · cases h
  · exact Prod.mk.inj (Except.ok.inj (Option.some.inj h))

/-- An operation that is not to register a field succeeds once its watch is there, and
changes nothing. -/
theorem runOn_of_lists (ht : t.RunsOver c)
    (hmember : ∀ {n m}, s.view.outline.member? n = some m → t.view.outline.member? n = some m)
    (hop : ¬ op.IsRegister) {address watcher : String}
    (hfirst : s.firstWatch op = some (.ok (address, watcher)))
    (hlists : t.watches.Lists address watcher) (fuel : Nat) :
    ∃ a, t.run (fuel + 1) op = some (.ok a, t) := by
  -- an instance has its name in the watch graph for good
  have hsame : ∀ {n i}, s.instance? n = some i → ∃ j, t.instance? n = some j ∧ j.kind = i.kind
      ∧ ∀ field, j.fieldAddress field = i.fieldAddress field := by
    intro n i hi
    obtain ⟨j, hj, hji⟩ := instance_of_member? (hmember (member?_of_instance hi))
    obtain ⟨hkind, hid, -⟩ := Member.mk.inj hji
    exact ⟨j, hj, hkind, fun field => by rw [Instance.fieldAddress, hkind, hid]; rfl⟩
  cases op with
  | register => exact absurd trivial hop
  | watch n field name =>
    obtain ⟨i, hi, hfirst⟩ := Option.bind_eq_some_iff.1 hfirst
    obtain ⟨j, hj, hkind, haddress⟩ := hsame hi
    cases hspec : i.kind.info.field? field with
    | none => simp [hspec] at hfirst
    | some spec =>
      simp only [hspec] at hfirst
      obtain ⟨rfl, rfl⟩ := eq_of_newWatch? hfirst
      refine ⟨(), runOn_watchField_of_contains ht hj (hkind ▸ hspec) ?_⟩
      rw [haddress]
      exact lists_iff_contains.1 hlists
  | watchCompute n field follower followerField =>
    obtain ⟨i, hi, hfirst⟩ := Option.bind_eq_some_iff.1 hfirst
    obtain ⟨i', hi', hfirst⟩ := Option.bind_eq_some_iff.1 hfirst
    obtain ⟨j, hj, -, haddress⟩ := hsame hi
    obtain ⟨j', hj', -, haddress'⟩ := hsame hi'
    obtain ⟨rfl, rfl⟩ := eq_of_newWatch? hfirst
    refine ⟨(), (runOn_bind_ok (runOn_getInstance hj)).trans (runOn_follow_of_contains ht hj' ?_)⟩
    rw [haddress, haddress']
    exact lists_iff_contains.1 hlists
  | _ => cases hfirst

/-- **What a failed registration leaves.**  On every session of a catalog, an operation that
enters watches and fails was either refused before its first watch, and then nothing at
all has changed; or it has entered that watch, which was not there before, and unless
logic stops watchers the watch is still there.  Then the operation succeeds the next
time, if it is not to register a field, and changes nothing. -/
theorem failed_watch_stays (hs : s.StemsFrom c) (hop : op.Enters) {fuel : Nat}
    (hrun : s.run fuel op = some (.error e, t)) :
    (s.firstWatch op = some (.error e) ∧ t = s)
      ∨ ∃ address watcher, s.firstWatch op = some (.ok (address, watcher))
        ∧ ¬ s.watches.Lists address watcher
        ∧ (c.KeepsWatches → t.watches.Lists address watcher
          ∧ (¬ op.IsRegister → ∀ more, ∃ a, t.run (more + 1) op = some (.ok a, t))) := by
  generalize hfirst : s.firstWatch op = first
  cases hfirst ▸ failsWatching_run hs.runsOver hop hrun with
  | refused h => exact .inl ⟨rfl, h⟩
  | @entered address watcher hnew hstays =>
    refine .inr ⟨address, watcher, rfl, hnew, fun hkeeps => ⟨hstays hkeeps, fun hother more => ?_⟩⟩
    exact runOn_of_lists (hs.runsOver.run hrun) (evolves_run hs.keyed hrun).2.member hother hfirst
      (hstays hkeeps) more

section Sample

open LazyFields.Sample (hasR after)

/-- To follow a field that was never declared. -/
def followsNothing : Operation := .watchCompute 0 "nope" 0 "f"

theorem run_followsNothing : hasR.run 20 followsNothing
    = some (.error (.unknownField "r" "nope"), after hasR followsNothing) := by
  have h : (hasR.run 20 (.watchCompute 0 "nope" 0 "f")).map Prod.fst
      = some (.error (.unknownField "r" "nope")) := by decide +kernel
  exact Sample.run_eq_after h

theorem failed_watch_stays_follows : hasR.StemsFrom Sample.catalog ∧ followsNothing.Enters
    ∧ Sample.catalog.KeepsWatches ∧ ∃ e t, hasR.run 20 followsNothing = some (.error e, t)
      ∧ ¬ hasR.watches.Lists "r\x00\x00nope" "r\x00\x00f"
      ∧ t.watches.Lists "r\x00\x00nope" "r\x00\x00f"
      ∧ ∀ more, ∃ a, t.run (more + 1) followsNothing = some (.ok a, t) := by
  have hkeeps := Catalog.KeepsWatches.of_alone Sample.computesPurely.1 Sample.preparesAlone
    Sample.identifiesByStatics
  have henters : followsNothing.Enters := trivial
  have hfirst : hasR.firstWatch followsNothing
      = some (.ok ("r\x00\x00nope", "r\x00\x00f")) := by decide +kernel
  refine ⟨stemsFrom_hasR, henters, hkeeps, _, _, run_followsNothing, ?_⟩
  rcases failed_watch_stays stemsFrom_hasR henters run_followsNothing with
    ⟨hrefused, -⟩ | ⟨address, watcher, hentered, hnew, hstays⟩
  · rw [hfirst] at hrefused
    cases hrefused
  · rw [hfirst] at hentered
    cases hentered
    exact ⟨hnew, (hstays hkeeps).1, (hstays hkeeps).2 id⟩

/-- **A field that was never declared is followed all the same.**  The operation fails once;
the watch stays, and the same operation succeeds then. -/
theorem undeclared_follow_stays : hasR.StemsFrom Sample.catalog
    ∧ ∃ t u, hasR.run 20 followsNothing = some (.error (.unknownField "r" "nope"), t)
      ∧ hasR.watches.watcherNames "r\x00\x00nope" = []
      ∧ t.watches.watcherNames "r\x00\x00nope" = ["r\x00\x00f"]
      ∧ t.run 20 followsNothing = some (.ok (), u) := by
  have h : ((after hasR followsNothing).run 20 (.watchCompute 0 "nope" 0 "f")).map Prod.fst
      = some (.ok ()) := by decide +kernel
  exact ⟨stemsFrom_hasR, _, _, run_followsNothing, by decide +kernel, by decide +kernel,
    Sample.run_eq_after h⟩

end Sample

end Session

end LazyFields
