/-
  LazyFields.Proofs.Session.Parallel
  ────────────────────────────────
  **RESOLVING IN PARALLEL DOES NOT DEPEND ON THE SCHEDULE.**

  One field of many instances is resolved by a pool, which performs the single
  calls one at a time, in whatever order, and puts the results back into the
  order of the input (`resolveParallel`).  The calls share caches and watches,
  so each one changes the session for the next.  But resolving changes no answer
  (`resolve_answers`), so every call gives what it would have given at first.

  This holds of every session that came about over a lawful catalog, whatever
  was done to caches and watches (`Arises.upright`).
-/
import LazyFields.Proofs.Catalog.Bound
import LazyFields.Proofs.Session.Answer
import LazyFields.Proofs.Session.History

namespace LazyFields.Session

open LazyFields.Action

variable {c : Catalog} {s t : Session} {k : Kind} {kind field : String} {spec : FieldSpec}
  {ns all : List Nat}

/-! ## §1. The pool. -/

/-- Resolve the field of some instances one at a time.  Each is given with its
position in the input, and so is its result. -/
def resolveOneByOne (call : Performer) (field : String) (order : List (Nat × Nat)) :
    Action (List (Nat × Outcome)) :=
  order.mapM fun e => do
    let r ← attempt (call (.resolve e.1 field))
    pure (e.2, r)

/-- Results with their positions, put into the order of the positions. -/
def byPosition (count : Nat) (results : List (Nat × Outcome)) : List Outcome :=
  (List.range count).filterMap fun position => results.lookup position

/-- The first failure among some results. -/
def firstFailure (results : List Outcome) : Option Error :=
  results.findSome? fun
    | .error .notReady => none
    | .error e => some e
    | .ok _ => none

/-- The answer to some results: the first failure, if that is asked for. -/
def verdict (failFast : Bool) (results : List Outcome) : Except Error (List Outcome) :=
  match failFast, firstFailure results with
  | true, some e => .error e
  | _, _ => .ok results

/-- The answer to the result of a single instance: the failure, if that is asked
for and it is one. -/
def soleVerdict (failFast : Bool) (r : Outcome) : Except Error (List Outcome) :=
  match failFast, r with
  | _, .error .notReady => .ok [r]
  | true, .error e => .error e
  | _, _ => .ok [r]

/-- **Resolve one field of many instances in parallel.**  The order in which the
pool comes to them is a permutation of the input. -/
def resolveParallel (call : Performer) (ns : List Nat) (field : String) (config : Config)
    (order : List (Nat × Nat)) : Action (List Outcome) :=
  match ns with
  | [] => pure []
  | [n] => do
      let r ← attempt (call (.resolve n field))
      ofResult (soleVerdict config.failFast r)
  | _ => do
      let results ← resolveOneByOne call field order
      ofResult (verdict config.failFast (byPosition ns.length results))

/-- A pool answers whenever the resolutions that it asks for do. -/
theorem resolveParallel_refines {call call' : Performer} (h : call.Refines call') (ns : List Nat)
    (field : String) (config : Config) (order : List (Nat × Nat)) :
    (resolveParallel call ns field config order).Refines
      (resolveParallel call' ns field config order) := by
  unfold resolveParallel
  split
  · exact .rfl
  · exact .bind (.attempt (h _)) fun _ => .rfl
  · exact .bind (.mapM (fun _ => .bind (.attempt (h _)) fun _ => .rfl) _) fun _ => .rfl

theorem verdict_nil (failFast : Bool) : verdict failFast [] = .ok [] := by cases failFast <;> rfl

theorem verdict_singleton (failFast : Bool) (r : Outcome) :
    verdict failFast [r] = soleVerdict failFast r := by
  cases failFast with
  | false => cases r with
    | ok v => rfl
    | error e => cases e <;> rfl
  | true => cases r with
    | ok v => rfl
    | error e => cases e <;> rfl

/-- When the instances are resolved as they are given, the answer is the same verdict. -/
theorem resolveAll_eq (call : Performer) (ns : List Nat) (field : String) (failFast : Bool) :
    resolveAll call ns field failFast = (do
      let results ← ns.mapM fun n => attempt (call (.resolve n field))
      ofResult (verdict failFast results)) := by
  unfold resolveAll
  refine bind_congr fun results => ?_
  cases failFast with
  | false => rfl
  | true =>
    show (match true, firstFailure results with
      | true, some e => throw e
      | _, _ => pure results : Action (List Outcome)) = _
    unfold verdict
    cases firstFailure results <;> rfl

theorem exists_of_forall₂ {α β : Type} {R : α → β → Prop} {xs : List α} {ys : List β}
    (h : List.Forall₂ R xs ys) {x : α} (hx : x ∈ xs) : ∃ y ∈ ys, R x y := by
  induction h with
  | nil => cases hx
  | cons hr _ ih =>
    rcases List.mem_cons.1 hx with rfl | hx
    · exact ⟨_, List.mem_cons_self, hr⟩
    · obtain ⟨y, hy, hr⟩ := ih hx
      exact ⟨y, List.mem_cons_of_mem _ hy, hr⟩

/-- Going through the positions is going through the list. -/
theorem forall₂_filterMap_range {α β : Type} {Q : α → β → Prop} {xs : List α} {f : Nat → Option β}
    (h : ∀ position x, xs[position]? = some x → ∃ y, f position = some y ∧ Q x y) :
    List.Forall₂ Q xs ((List.range xs.length).filterMap f) := by
  induction xs generalizing f with
  | nil => exact .nil
  | cons x xs ih =>
    obtain ⟨y, hy, hq⟩ := h 0 x rfl
    rw [List.length_cons, List.range_succ_eq_map, List.filterMap_cons_some hy, List.filterMap_map]
    exact .cons hq (ih fun position => h (position + 1))

/-- Every result gets back to its position. -/
theorem forall₂_byPosition {Q : Nat → Outcome → Prop} {order : List (Nat × Nat)}
    (horder : order.Perm ns.zipIdx) {results : List (Nat × Outcome)}
    (h : List.Forall₂ (fun e p => p.1 = e.2 ∧ Q e.1 p.2) order results) :
    List.Forall₂ Q ns (byPosition ns.length results) := by
  refine forall₂_filterMap_range fun position n hn => ?_
  obtain ⟨p, hp, hposition, -⟩ :=
    exists_of_forall₂ h (horder.mem_iff.2 (List.mk_mem_zipIdx_iff_getElem?.2 hn))
  cases hlookup : results.lookup position with
  | none =>
    have hne := List.lookup_eq_none_iff.1 hlookup _ hp
    simp [hposition] at hne
  | some r' =>
    -- a result of this position is one of the instance that stands there
    obtain ⟨before, after, hsplit, -⟩ := List.lookup_eq_some_iff.1 hlookup
    have hmem : (position, r') ∈ results := hsplit ▸ List.mem_append_right before List.mem_cons_self
    obtain ⟨⟨n', _⟩, he, hposition', hq⟩ := exists_of_forall₂ (List.Forall₂.flip h) hmem
    obtain rfl : position = _ := hposition'
    have hn' := List.mk_mem_zipIdx_iff_getElem?.1 (horder.mem_iff.1 he)
    obtain rfl : n = n' := Option.some.inj (hn.symm.trans hn')
    exact ⟨r', rfl, hq⟩

theorem byPosition_of_perm {order : List (Nat × Nat)} (horder : order.Perm ns.zipIdx)
    (value : Nat → Outcome) :
    byPosition ns.length (order.map fun e => (e.2, value e.1)) = ns.map value := by
  have hresults : List.Forall₂ (fun n r => value n = r) ns
      (byPosition ns.length (order.map fun e => (e.2, value e.1))) := by
    refine forall₂_byPosition horder (List.forall₂_map_right_iff.2 ?_)
    exact List.forall₂_same.2 fun _ _ => ⟨rfl, rfl⟩
  rw [← List.forall₂_map_left_iff (R := Eq), List.forall₂_eq_eq_eq] at hresults
  exact hresults.symm

/-! ## §2. Sessions that came about. -/

/-- The session came about over the catalog, by any operations, and by anything
that is done between them to caches, watches, the time, or claims. -/
inductive Arises (c : Catalog) : Session → Prop where
  | new (config : Config) (now : Int) : Arises c (.new c config now)
  | run {s t : Session} {fuel : Nat} {op : Operation} {r : Except Error op.Answer} :
      Arises c s → s.run fuel op = some (r, t) → Arises c t
  | edit {s t : Session} : Arises c s → t.outline = s.outline → Arises c t

theorem Arises.keyed (h : Arises c s) :
    s.outline.Keyed ∧ s.catalog = c ∧ s.live = true := by
  induction h with
  | new config now =>
    refine ⟨?_, rfl, rfl⟩
    intro address n hn
    simp [outline, Session.new] at hn
  | run _ hrun ih =>
    obtain ⟨hkeyed, hevolves⟩ := evolves_run ih.1 hrun
    exact ⟨hkeyed, Eq.trans hevolves.catalog ih.2.1, Eq.trans hevolves.live ih.2.2⟩
  | edit _ hsame ih =>
    exact ⟨hsame ▸ ih.1, Eq.trans (congrArg Outline.catalog hsame) ih.2.1,
      Eq.trans (congrArg Outline.live hsame) ih.2.2⟩

/-- **What was published tells the truth,** if the catalog is lawful. -/
theorem Arises.upright (h : Arises c s) (hlawful : c.Lawful) : s.view.outline.Upright := by
  obtain ⟨hkeyed, rfl, hlive⟩ := h.keyed
  refine ⟨hlawful, hlive, ?_⟩
  intro address n hn
  obtain ⟨m, hm, hkept, ⟨key, hkey⟩, haddress⟩ := hkeyed hn
  have hname : m.kind.name = key := hlawful.name hkey
  exact ⟨m, hm, hkept, hname ▸ hkey, haddress⟩

/-- An instance that is on the list of a kind is there, and of that kind. -/
theorem member_of_list (ho : s.view.outline.Upright) (hget : s.catalog.get kind = .ok k)
    (hall : s.list kind = .ok all) {n : Nat} (hn : n ∈ all) :
    ∃ m, s.view.outline.member? n = some m ∧ m.discarded = false ∧ m.kind = k := by
  have hlist : all
      = (s.publishedInstances.filter fun e => e.2.kind.name = k.name).map Prod.fst := by
    simpa [list, hget, Bind.bind, Except.bind] using hall.symm
  rw [hlist] at hn
  obtain ⟨⟨n', i⟩, hmem, rfl⟩ := List.mem_map.1 hn
  obtain ⟨hpublished, hname⟩ := List.mem_filter.1 hmem
  obtain ⟨n'', hvalue, hsome⟩ := List.mem_filterMap.1 hpublished
  obtain ⟨i', hi, heq⟩ := Option.map_eq_some_iff.1 hsome
  cases heq
  obtain ⟨address, haddress⟩ := Table.mem_values.1 hvalue
  obtain ⟨m, hm, hkept, hkind, -⟩ := ho.published haddress
  obtain rfl : i.member = m := Option.some.inj ((member?_of_instance hi).symm.trans hm)
  refine ⟨i.member, hm, hkept, ?_⟩
  -- both kinds are in the catalog under one name
  have hname : i.kind.name = k.name := by simpa using hname
  rw [show i.member.kind.name = k.name from hname] at hkind
  exact Option.some.inj (hkind.symm.trans (ho.lawful.kind_of_get hget).2)

/-- A declared field of an instance that is on the list of its kind. -/
theorem shows_of_list (ho : s.view.outline.Upright) (hget : s.catalog.get kind = .ok k)
    (hfield : k.info.field? field = some spec) (hall : s.list kind = .ok all) {n : Nat}
    (hn : n ∈ all) : ∃ m, s.view.outline.Shows (n, field) m spec := by
  obtain ⟨m, hm, hkept, rfl⟩ := member_of_list ho hget hall hn
  exact ⟨m, ⟨hm, hkept, hfield⟩, (ho.lawful.kind_of_get hget).2⟩

/-! ## §3. Independence of the schedule. -/

section Answers

variable (ho : s.view.outline.Upright) (hpure : s.view.outline.catalog.ComputesPurely)
  (hshows : ∀ n ∈ ns, ∃ m, s.view.outline.Shows (n, field) m spec)

include ho hpure hshows

/-- On the way a call gives what it would have given at first. -/
theorem attempt_resolve_ends {n : Nat} (hn : n ∈ ns) (ht : s.view.Answered t.view) :
    Ends (fun call => attempt (call (.resolve n field))) t fun r u =>
      r = .ok (s.view.answer (n, field)) ∧ s.view.Answered u.view := by
  obtain ⟨m, hshows⟩ := hshows n hn
  have hto := ht.outline
  refine .attempt ((resolve_answers (hto ▸ ho) (hto ▸ hpure) (hto ▸ hshows)).mono ?_)
  rintro a u ⟨rfl, hu⟩
  exact ⟨by rw [ht.answer_eq ho hshows], ht.trans hu ho⟩

theorem resolveOneByOne_ends {order : List (Nat × Nat)} (horder : order.Perm ns.zipIdx) :
    Ends (fun call => resolveOneByOne call field order) s fun r t =>
      r = .ok (order.map fun e => (e.2, s.view.answer (e.1, field)))
        ∧ s.view.Answered t.view := by
  refine Ends.mapM (I := fun t => s.view.Answered t.view) ?_ s (.refl _)
  rintro ⟨n, position⟩ he t ht
  have hn : n ∈ ns :=
    List.mem_of_getElem? (List.mk_mem_zipIdx_iff_getElem?.1 (horder.mem_iff.1 he))
  refine .bind_ok (attempt_resolve_ends ho hpure hshows hn ht) fun u hu => ?_
  exact .pure ⟨rfl, hu⟩

/-- The operation of the session resolves the instances as they are given. -/
theorem resolveAll_answers (failFast : Bool) :
    Ends (fun call => call (.resolveAll ns field failFast)) s fun r _ =>
      r = verdict failFast (ns.map fun n => s.view.answer (n, field)) := by
  refine .call ?_
  show Ends (fun call => resolveAll call ns field failFast) s _
  simp only [resolveAll_eq]
  have hresults := Ends.mapM (f := fun n call => attempt (call (.resolve n field)))
    (I := fun t => s.view.Answered t.view) (fun n hn t ht =>
      attempt_resolve_ends ho hpure hshows hn ht) s (.refl _)
  refine .bind_ok hresults fun t ht => ?_
  exact .of_runOn (fun _ => runOn_ofResult _ _) rfl

theorem resolveParallel_answers (config : Config) {order : List (Nat × Nat)}
    (horder : order.Perm ns.zipIdx) :
    Ends (fun call => resolveParallel call ns field config order) s fun r _ =>
      r = verdict config.failFast (ns.map fun n => s.view.answer (n, field)) := by
  unfold resolveParallel
  split
  · exact .pure (verdict_nil _).symm
  · next n =>
    refine .bind_ok (attempt_resolve_ends ho hpure hshows (List.mem_singleton_self n) (.refl _))
      fun t ht => ?_
    rw [List.map_singleton, verdict_singleton]
    exact .of_runOn (fun _ => runOn_ofResult _ _) rfl
  · refine .bind_ok (resolveOneByOne_ends ho hpure hshows horder) fun t ht => ?_
    rw [byPosition_of_perm horder fun n => s.view.answer (n, field)]
    exact .of_runOn (fun _ => runOn_ofResult _ _) rfl

end Answers

/-- **Resolving in parallel does not depend on the schedule.**  There is one
outcome for each instance, which is what resolving it alone gives.  Whatever the
order in which the pool comes to the instances, its answer is the list of these
outcomes in the order of the input, or, if that is asked for, the first of them
that is a failure.  So is the answer when the instances are resolved as they are
given. -/
theorem resolveParallel_unscheduled {file : Source.File} {schema : Schema}
    (hfile : file.Accepted schema) (hc : c.Over schema) (hpure : c.ComputesPurely)
    (hs : Arises c s) (hget : s.catalog.get kind = .ok k)
    (hfield : k.info.field? field = some spec) (hall : s.list kind = .ok all)
    (hns : ∀ n ∈ ns, n ∈ all) (config : Config) :
    ∃ alone : Nat → Outcome,
      (∀ n ∈ ns, ∃ fuel t, s.run fuel (.resolve n field) = some (alone n, t))
      ∧ (∀ order : List (Nat × Nat), order.Perm ns.zipIdx → ∃ fuel t,
        (resolveParallel (perform fuel) ns field config order).runOn s
          = some (verdict config.failFast (ns.map alone), t))
      ∧ ∃ fuel t, s.run fuel (.resolveAll ns field config.failFast)
          = some (verdict config.failFast (ns.map alone), t) := by
  have ho := hs.upright (hfile.lawful hc)
  obtain ⟨-, rfl, -⟩ := hs.keyed
  have hshows : ∀ n ∈ ns, ∃ m, s.view.outline.Shows (n, field) m spec :=
    fun n hn => shows_of_list ho hget hfield hall (hns n hn)
  -- what a field comes to does not depend on what was computed before it
  refine ⟨fun n => s.view.answer (n, field), ?_, ?_, ?_⟩
  · intro n hn
    obtain ⟨m, hx⟩ := hshows n hn
    obtain ⟨fuel, r, t, hrun, rfl, -⟩ := (resolve_answers ho hpure hx).run
    exact ⟨fuel, t, hrun⟩
  · intro order horder
    obtain ⟨r, t, ⟨fuel, hrun⟩, rfl⟩ := resolveParallel_answers ho hpure hshows config horder
    exact ⟨fuel, t, hrun fuel (Nat.le_refl _)⟩
  · obtain ⟨fuel, r, t, hrun, rfl⟩ := (resolveAll_answers ho hpure hshows config.failFast).run
    exact ⟨fuel, t, hrun⟩

section Sample

open LazyFields.Sample (after createX hasR run_after)

/-- A second instance of `r`. -/
def createR : Operation := .create "r" (Table.ofList [("__id", .string "1")])

/-- Two instances of `r` that share `x`. -/
def sharing : Session := after (after hasR createX) createR

theorem arises_sharing : Arises Sample.catalog sharing := by
  obtain ⟨_, hr⟩ := run_after Sample.start (.create "r" ∅) (by decide +kernel)
  obtain ⟨_, hx⟩ := run_after hasR createX (by decide +kernel)
  obtain ⟨_, hr'⟩ := run_after (after hasR createX) createR (by decide +kernel)
  exact (((Arises.new _ 0).run hr).run hx).run hr'

/-- The second instance comes first, and again at the end; the pool begins with
the one in the middle. -/
theorem resolveParallel_sharing : ∃ alone : Nat → Outcome,
    (∀ n ∈ [2, 0, 2], ∃ fuel t, sharing.run fuel (.resolve n "f") = some (alone n, t))
    ∧ ∃ fuel t, (resolveParallel (perform fuel) [2, 0, 2] "f" ⟨4, 1, true, fun _ => none⟩
        [(0, 1), (2, 2), (2, 0)]).runOn sharing
      = some (verdict true ([2, 0, 2].map alone), t) := by
  have hkind : (Sample.catalog.lookup? "r").any (fun k => (k.info.field? "f").isSome) = true := by
    decide +kernel
  obtain ⟨k, hk, hfield⟩ := (Option.any_eq_true _ _).1 hkind
  obtain ⟨spec, hfield⟩ := Option.isSome_iff_exists.1 hfield
  have hget : sharing.catalog.get "r" = .ok k := by
    rw [arises_sharing.keyed.2.1]
    simp only [Catalog.get, hk]
  have hall : sharing.list "r" = .ok [0, 2] := by
    have hlist : (sharing.list "r").toOption = some [0, 2] := by decide +kernel
    generalize sharing.list "r" = r at hlist
    cases r with
    | error e => cases hlist
    | ok all => rw [Option.some.inj hlist]
  have hns : ∀ n ∈ [2, 0, 2], n ∈ [0, 2] := by decide
  obtain ⟨alone, halone, hparallel, -⟩ := resolveParallel_unscheduled Sample.accepted
    Sample.catalog_over Sample.computesPurely arises_sharing hget hfield hall hns
    ⟨4, 1, true, fun _ => none⟩
  exact ⟨alone, halone, hparallel _ (by decide)⟩

end Sample

end LazyFields.Session
