/-
  LazyFields.Proofs.WatchGraph.Snapshot
  ────────────────────────────────
  **A TRIGGER CALLS THOSE WHO WATCHED WHEN IT BEGAN.**

  The callbacks that a trigger calls may take watchers of the same field away,
  add others, and trigger the same field again.  None of it changes which
  callbacks the trigger itself calls, nor what it answers.

  A `Situation` is a cascade at some moment: a stack of what is under way, the
  graph, and all that was called and answered so far.  Triggers are numbered in
  the order they begin, so what one of them calls itself is told apart from what
  is called inside it.  A callback may keep something in mind from one run to
  the next, so each call may have it act differently.

    · `Accounts` — what a trigger has called, and what it has yet to call, make
      up its snapshot; it waits for its turn or has answered, not both
    · `Accounts.step`, `Accounts.runs` — this is kept by every step, so by every
      run
    · `leads_of_react` — a run of the graph is a run of situations
    · `unwinds_of_runs` — and a run of situations in which everything comes to its
      end is a run of the graph
    · `trigger_calls_registered` — so a trigger that is over has called the
      callbacks that were registered when it began, and a trigger answers if all
      that it calls comes to its end
-/
import LazyFields.WatchGraph
import Mathlib.Logic.Relation

namespace LazyFields.WatchGraph

open Relation (ReflTransGen TransGen)

/-! ## §1. Cascades. -/

/-- What has begun and is not over: a callback, with what it has left to do, or
a trigger, with the number it will answer, the callbacks that it has not called
yet, and what comes after its answer. -/
inductive Frame where
  | running (left : Reaction)
  | firing (trigger : Nat) (field : String) (count : Nat) (left : List (String × Reaction))
      (next : Nat → Reaction)

/-- What a trigger does: it calls the callback of a watcher, and answers. -/
inductive Act where
  | calls (trigger : Nat) (field watcher : String) (callback : Reaction)
  | answers (trigger count : Nat)

/-- A cascade at some moment. -/
structure Situation where
  /-- What is under way, the innermost first. -/
  stack : List Frame
  graph : WatchGraph Reaction
  /-- How many triggers have begun. -/
  triggers : Nat
  /-- What the triggers did so far, the latest first. -/
  acts : List Act

/-- A reaction that is about to run. -/
def Situation.start (r : Reaction) (g : WatchGraph Reaction) : Situation := ⟨[.running r], g, 0, []⟩

/-- One step of a cascade.  When it is called once, a callback `c` may do what
`r` does, if `may c r`. -/
inductive Step (may : Reaction → Reaction → Prop) : Situation → Situation → Prop where
  | done {below : List Frame} {g : WatchGraph Reaction} {n : Nat} {acts : List Act} :
      Step may ⟨.running .done :: below, g, n, acts⟩ ⟨below, g, n, acts⟩
  | watch {field watcher : String} {callback : Reaction} {next : Watched → Reaction}
      {below : List Frame} {g : WatchGraph Reaction} {n : Nat} {acts : List Act} :
      Step may ⟨.running (.watch field watcher callback next) :: below, g, n, acts⟩
        ⟨.running (next (g.watch field watcher callback).1) :: below,
          (g.watch field watcher callback).2, n, acts⟩
  | unwatch {watcher : String} {next : Reaction} {below : List Frame} {g : WatchGraph Reaction}
      {n : Nat} {acts : List Act} :
      Step may ⟨.running (.unwatch watcher next) :: below, g, n, acts⟩
        ⟨.running next :: below, g.unwatch watcher, n, acts⟩
  /-- A trigger begins: it takes down who watches the field now. -/
  | trigger {field : String} {next : Nat → Reaction} {below : List Frame}
      {g : WatchGraph Reaction} {n : Nat} {acts : List Act} :
      Step may ⟨.running (.trigger field next) :: below, g, n, acts⟩
        ⟨.firing n field (g.callbacks field).entries.length (g.callbacks field).entries next
          :: below, g, n + 1, acts⟩
  | call {k : Nat} {field watcher : String} {count : Nat} {callback r : Reaction}
      {left : List (String × Reaction)} {next : Nat → Reaction} {below : List Frame}
      {g : WatchGraph Reaction} {n : Nat} {acts : List Act} (h : may callback r) :
      Step may ⟨.firing k field count ((watcher, callback) :: left) next :: below, g, n, acts⟩
        ⟨.running r :: .firing k field count left next :: below, g, n,
          .calls k field watcher callback :: acts⟩
  | answer {k : Nat} {field : String} {count : Nat} {next : Nat → Reaction} {below : List Frame}
      {g : WatchGraph Reaction} {n : Nat} {acts : List Act} :
      Step may ⟨.firing k field count [] next :: below, g, n, acts⟩
        ⟨.running (next count) :: below, g, n, .answers k count :: acts⟩

/-- The second situation comes after the first one, or is the same. -/
def Runs (may : Reaction → Reaction → Prop) : Situation → Situation → Prop :=
  ReflTransGen (Step may)

/-! ## §2. What a trigger does itself. -/

/-- The callback that the trigger `k` calls. -/
def Act.callOf? (k : Nat) : Act → Option (String × String × Reaction)
  | .calls trigger field watcher callback =>
      if trigger = k then some (field, watcher, callback) else none
  | .answers _ _ => none

/-- What the trigger `k` answers. -/
def Act.answerOf? (k : Nat) : Act → Option Nat
  | .calls _ _ _ _ => none
  | .answers trigger count => if trigger = k then some count else none

/-- The callbacks that the trigger `k` has yet to call. -/
def Frame.dueOf (k : Nat) : Frame → List (String × String × Reaction)
  | .running _ => []
  | .firing trigger field _ left _ => if trigger = k then left.map fun e => (field, e) else []

/-- What the trigger `k` will answer. -/
def Frame.answerOf? (k : Nat) : Frame → Option Nat
  | .running _ => none
  | .firing trigger _ count _ _ => if trigger = k then some count else none

namespace Situation

/-- The callbacks that the trigger `k` called itself, in the order it did. -/
def callsOf (s : Situation) (k : Nat) : List (String × String × Reaction) :=
  (s.acts.filterMap (Act.callOf? k)).reverse

/-- What the trigger `k` answered. -/
def answersOf (s : Situation) (k : Nat) : List Nat := s.acts.filterMap (Act.answerOf? k)

/-- The callbacks that the trigger `k` has yet to call. -/
def due (s : Situation) (k : Nat) : List (String × String × Reaction) :=
  s.stack.flatMap (Frame.dueOf k)

/-- What the trigger `k` has yet to answer: a number while it is under way. -/
def pending (s : Situation) (k : Nat) : List Nat := s.stack.filterMap (Frame.answerOf? k)

/-- The trigger `k` is not under way. -/
def Idle (s : Situation) (k : Nat) : Prop :=
  ∀ field count left next, .firing k field count left next ∉ s.stack

end Situation

/-! ## §3. What a step keeps. -/

variable {may : Reaction → Reaction → Prop} {s t : Situation} {k : Nat}

/-- **A step moves a callback from those that are due to those that were called,
and a number from what is pending to what was answered.**  It does nothing else
to a trigger that it does not begin. -/
theorem Step.keeps (h : Step may s t) (hk : k < s.triggers ∨ t.triggers ≤ k) :
    t.callsOf k ++ t.due k = s.callsOf k ++ s.due k
      ∧ (t.pending k ++ t.answersOf k).Perm (s.pending k ++ s.answersOf k) := by
  cases h with
  | done => exact ⟨rfl, .refl _⟩
  | watch => exact ⟨rfl, .refl _⟩
  | unwatch => exact ⟨rfl, .refl _⟩
  | @trigger field next below g n acts =>
    -- the number of a trigger that begins was not given before
    have hother : ¬ n = k := by
      simp only at hk
      omega
    simp only [Situation.callsOf, Situation.due, Situation.pending, Situation.answersOf,
      List.flatMap_cons, List.filterMap_cons, Frame.dueOf, Frame.answerOf?, if_neg hother,
      List.nil_append, List.Perm.refl, and_self]
  | @call i field watcher count callback r left next below g n acts hmay =>
    simp only [Situation.callsOf, Situation.due, Situation.pending, Situation.answersOf,
      List.flatMap_cons, List.filterMap_cons, Frame.dueOf, Frame.answerOf?, Act.callOf?,
      Act.answerOf?]
    by_cases hi : i = k
    · simp [hi]
    · simp [hi]
  | @answer i field count next below g n acts =>
    simp only [Situation.callsOf, Situation.due, Situation.pending, Situation.answersOf,
      List.flatMap_cons, List.filterMap_cons, Frame.dueOf, Frame.answerOf?, Act.callOf?,
      Act.answerOf?]
    by_cases hi : i = k
    · simp [hi]
    · simp [hi]

/-- No step takes a trigger's number back. -/
theorem Step.triggers_le (h : Step may s t) : s.triggers ≤ t.triggers := by
  cases h with
  | trigger => exact Nat.le_succ _
  | _ => exact Nat.le_refl _

/-- A trigger that has not begun has left no trace. -/
def Situation.Silent (s : Situation) (k : Nat) : Prop :=
  s.callsOf k ++ s.due k = [] ∧ s.pending k ++ s.answersOf k = []

/-- The numbers of the triggers to come are not in use. -/
def Situation.Numbered (s : Situation) : Prop := ∀ k, s.triggers ≤ k → s.Silent k

/-- A step uses the next number only. -/
theorem Step.numbered (h : Step may s t) (hs : s.Numbered) : t.Numbered := by
  intro k hk
  obtain ⟨hcalls, hanswers⟩ := h.keeps (.inr hk)
  have hsilent := hs k (Nat.le_trans h.triggers_le hk)
  exact ⟨hcalls.trans hsilent.1, List.perm_nil.1 (hsilent.2 ▸ hanswers)⟩

theorem numbered_start (r : Reaction) (g : WatchGraph Reaction) :
    (Situation.start r g).Numbered := fun _ _ => ⟨rfl, rfl⟩

/-- The numbers to come are not in use along a run. -/
theorem Runs.numbered (h : Runs may s t) (hs : s.Numbered) : t.Numbered := by
  induction h with
  | refl => exact hs
  | tail _ hstep ih => exact hstep.numbered ih

/-! ## §4. A trigger and its snapshot. -/

variable {snapshot : List (String × String × Reaction)}

/-- The trigger `k` has called a first part of the snapshot, and has the rest yet
to call; either it is under way or it has answered the length of the snapshot. -/
structure Accounts (snapshot : List (String × String × Reaction)) (k : Nat) (s : Situation) :
    Prop where
  begun : k < s.triggers
  calls : s.callsOf k ++ s.due k = snapshot
  answers : s.pending k ++ s.answersOf k = [snapshot.length]

/-- **Every step keeps the account of a trigger,** whatever the callbacks do to
the graph. -/
theorem Accounts.step (h : Accounts snapshot k s) (hstep : Step may s t) :
    Accounts snapshot k t := by
  obtain ⟨hcalls, hanswers⟩ := hstep.keeps (.inl h.begun)
  exact ⟨Nat.lt_of_lt_of_le h.begun hstep.triggers_le, hcalls.trans h.calls,
    List.perm_singleton.1 (h.answers ▸ hanswers)⟩

/-- The account of a trigger is kept along a run. -/
theorem Accounts.runs (h : Accounts snapshot k s) (hruns : Runs may s t) :
    Accounts snapshot k t := by
  induction hruns with
  | refl => exact h
  | tail _ hstep ih => exact ih.step hstep

/-- A trigger begins with its whole snapshot due: the callbacks that watch the
field at this moment. -/
theorem accounts_of_begins {field : String} {next : Nat → Reaction} {below : List Frame}
    (hs : s.Numbered) (hstack : s.stack = .running (.trigger field next) :: below)
    (h : Step may s t) :
    Accounts ((s.graph.callbacks field).entries.map fun e => (field, e)) s.triggers t := by
  obtain ⟨hcalls, hanswers⟩ := hs s.triggers (Nat.le_refl _)
  cases h with
  | trigger =>
    cases hstack
    obtain ⟨hcalled, hdue⟩ := List.append_eq_nil_iff.1 hcalls
    obtain ⟨hpending, hanswered⟩ := List.append_eq_nil_iff.1 hanswers
    simp only [Situation.due, Situation.pending, List.flatMap_cons, List.filterMap_cons,
      Frame.dueOf, Frame.answerOf?, List.nil_append] at hdue hpending
    refine ⟨Nat.lt_succ_self _, ?_, ?_⟩
    · show Situation.callsOf _ _ ++ (Frame.dueOf _ _ ++ below.flatMap _) = _
      rw [hdue, List.append_nil, Frame.dueOf, if_pos rfl]
      exact congrArg (· ++ _) hcalled
    · simp only [Situation.pending, List.filterMap_cons, Frame.answerOf?, if_true, hpending,
        List.length_map]
      exact congrArg ([_] ++ ·) hanswered
  | _ => simp at hstack

/-- A trigger that is not under way has nothing due and nothing pending. -/
theorem Situation.Idle.rest (h : s.Idle k) : s.pending k = [] ∧ s.due k = [] := by
  have hframe : ∀ frame ∈ s.stack, frame.answerOf? k = none ∧ frame.dueOf k = [] := by
    intro frame hmem
    cases frame with
    | running left => exact ⟨rfl, rfl⟩
    | firing i field count left next =>
      have hi : i ≠ k := by
        rintro rfl
        exact h field count left next hmem
      exact ⟨if_neg hi, if_neg hi⟩
  exact ⟨List.filterMap_eq_nil_iff.2 fun frame hmem => (hframe frame hmem).1,
    List.flatMap_eq_nil_iff.2 fun frame hmem => (hframe frame hmem).2⟩

/-- **A trigger that is over has called its snapshot, and has answered once.** -/
theorem Accounts.of_idle (h : Accounts snapshot k s) (hidle : s.Idle k) :
    s.callsOf k = snapshot ∧ s.answersOf k = [snapshot.length] := by
  obtain ⟨hpending, hdue⟩ := hidle.rest
  have hcalls := h.calls
  have hanswers := h.answers
  rw [hdue, List.append_nil] at hcalls
  rw [hpending, List.nil_append] at hanswers
  exact ⟨hcalls, hanswers⟩

/-! ## §5. Runs of the graph. -/

/-- The fields and watchers of the calls. -/
def logOf (acts : List Act) : List (String × String) :=
  acts.filterMap fun
    | .calls _ field watcher _ => some (field, watcher)
    | .answers _ _ => none

/-- Whatever happened so far, the cascade goes on from one stack to the other,
the graph as it does from one trace to the other, and the calls on the way are
those that the trace records. -/
def Leads (before after : List Frame) (t u : Trace) : Prop :=
  ∀ k acts, ∃ k' acts', Runs Eq ⟨before, t.graph, k, acts⟩ ⟨after, u.graph, k', acts' ++ acts⟩
    ∧ u.log = logOf acts' ++ t.log

section Leads

variable {stack before middle after below : List Frame} {u v : Trace} {trace : Trace}

theorem Leads.refl : Leads stack stack trace trace :=
  fun k _ => ⟨k, [], .refl, rfl⟩

theorem Leads.trans (h : Leads before middle trace u) (h' : Leads middle after u v) :
    Leads before after trace v := by
  intro k acts
  obtain ⟨k₁, acts₁, hruns₁, hlog₁⟩ := h k acts
  obtain ⟨k₂, acts₂, hruns₂, hlog₂⟩ := h' k₁ (acts₁ ++ acts)
  refine ⟨k₂, acts₂ ++ acts₁, ?_, ?_⟩
  · rw [List.append_assoc]
    exact hruns₁.trans hruns₂
  · rw [hlog₂, hlog₁, logOf, logOf, logOf, List.filterMap_append, List.append_assoc]

/-- A step that no trigger takes. -/
theorem Leads.of_step {g : WatchGraph Reaction}
    (h : ∀ k acts, Step Eq ⟨before, trace.graph, k, acts⟩ ⟨after, g, k, acts⟩) :
    Leads before after trace { trace with graph := g } :=
  fun k acts => ⟨k, [], .single (h k acts), rfl⟩

/-- The callbacks of a snapshot run one after the other. -/
theorem leads_of_foldlM {run : Reaction → Trace → Option Trace}
    (hrun : ∀ {r t u} below, run r t = some u → Leads (.running r :: below) below t u)
    {i : Nat} {field : String} {count : Nat} {next : Nat → Reaction} :
    ∀ (es : List (String × Reaction)) {t u : Trace},
      es.foldlM (fun t e => run e.2 (t.note field e.1)) t = some u →
        Leads (.firing i field count es next :: below) (.firing i field count [] next :: below)
          t u := by
  intro es
  induction es with
  | nil =>
    intro t u h
    cases h
    exact .refl
  | cons e es ih =>
    intro t u h
    obtain ⟨watcher, callback⟩ := e
    rw [List.foldlM_cons] at h
    obtain ⟨mid, hfirst, hrest⟩ := Option.bind_eq_some_iff.1 h
    have hcall : Leads (.firing i field count ((watcher, callback) :: es) next :: below)
        (.running callback :: .firing i field count es next :: below) t (t.note field watcher) :=
      fun k acts => ⟨k, [.calls i field watcher callback], .single (.call rfl), rfl⟩
    exact hcall.trans ((hrun _ hfirst).trans (ih hrest))

/-- A reaction is carried out by a run, if what it triggers is. -/
theorem leads_of_reactWith {trigger : String → Trace → Option (Nat × Trace)}
    (htrigger : ∀ {field t u n} next below, trigger field t = some (n, u) →
      Leads (.running (.trigger field next) :: below) (.running (next n) :: below) t u)
    (r : Reaction) :
    ∀ {t u : Trace} (below : List Frame), reactWith trigger r t = some u →
      Leads (.running r :: below) below t u := by
  induction r with
  | done =>
    intro t u below h
    cases h
    exact .of_step fun _ _ => .done
  | watch field watcher callback next _ ih =>
    intro t u below h
    exact (Leads.of_step fun _ _ => .watch).trans (ih _ below h)
  | unwatch watcher next ih =>
    intro t u below h
    exact (Leads.of_step fun _ _ => .unwatch).trans (ih below h)
  | trigger field next ih =>
    intro t u below h
    unfold reactWith at h
    split at h
    · simp at h
    · next n mid hfired => exact (htrigger next below hfired).trans (ih n below h)

/-- A trigger answers how many watch the field when it begins. -/
theorem answer_of_triggerWith {run : Reaction → Trace → Option Trace} {field : String}
    {t u : Trace} {n : Nat} (h : triggerWith run field t = some (n, u)) :
    n = (t.graph.callbacks field).size := by
  obtain ⟨_, -, heq⟩ := Option.map_eq_some_iff.1 h
  exact (Prod.mk.inj heq).1.symm

/-- A trigger takes its snapshot, runs the callbacks and answers their number. -/
theorem leads_of_triggerWith {run : Reaction → Trace → Option Trace}
    (hrun : ∀ {r t u} below, run r t = some u → Leads (.running r :: below) below t u)
    {field : String} {t u : Trace} {n : Nat} (next : Nat → Reaction) (below : List Frame)
    (h : triggerWith run field t = some (n, u)) :
    Leads (.running (.trigger field next) :: below) (.running (next n) :: below) t u := by
  unfold triggerWith at h
  obtain ⟨mid, hloop, heq⟩ := Option.map_eq_some_iff.1 h
  obtain ⟨rfl, rfl⟩ := Prod.mk.inj heq
  intro k before
  obtain ⟨k', acts', hruns, hlog⟩ := leads_of_foldlM (i := k) hrun _ hloop (k + 1) before
  refine ⟨k', .answers k (t.graph.callbacks field).entries.length :: acts', ?_, hlog⟩
  exact (hruns.head .trigger).tail .answer

/-- **A run of the graph is a run of situations.** -/
theorem leads_of_react {fuel : Nat} : ∀ {r : Reaction} {t u : Trace} (below : List Frame),
    react fuel r t = some u → Leads (.running r :: below) below t u := by
  induction fuel with
  | zero =>
    intro r t u below h
    exact leads_of_reactWith (fun _ _ hnone => by simp at hnone) r below h
  | succ fuel ih =>
    intro r t u below h
    exact leads_of_reactWith (leads_of_triggerWith ih) r below h

end Leads

/-! ## §6. Runs of situations that end. -/

section Unwinds

variable {u : Trace} {field : String}

/-- Callbacks that are run one after the other answer as those do that they run
like. -/
theorem foldlM_mono {run run' : Reaction → Trace → Option Trace}
    (h : ∀ r t u, run r t = some u → run' r t = some u) (es : List (String × Reaction)) :
    ∀ {t : Trace}, es.foldlM (fun t e => run e.2 (t.note field e.1)) t = some u →
      es.foldlM (fun t e => run' e.2 (t.note field e.1)) t = some u := by
  induction es with
  | nil => exact id
  | cons e es ih =>
    intro t hrun
    rw [List.foldlM_cons] at hrun ⊢
    obtain ⟨mid, hfirst, hrest⟩ := Option.bind_eq_some_iff.1 hrun
    exact Option.bind_eq_some_iff.2 ⟨mid, h _ _ _ hfirst, ih hrest⟩

/-- What a reaction does with less fuel for its triggers it does with more. -/
theorem reactWith_mono {trigger trigger' : String → Trace → Option (Nat × Trace)}
    (h : ∀ {field t x}, trigger field t = some x → trigger' field t = some x) (r : Reaction) :
    ∀ {t : Trace}, reactWith trigger r t = some u → reactWith trigger' r t = some u := by
  induction r with
  | done => exact id
  | watch field watcher callback next _ ih => exact ih _
  | unwatch watcher next ih => exact ih
  | trigger field next ih =>
    intro t hrun
    unfold reactWith at hrun ⊢
    split at hrun
    · simp at hrun
    · next n mid hfired =>
      rw [h hfired]
      exact ih n hrun

/-- **A reaction may nest deeper than it does.** -/
theorem react_succ (fuel : Nat) :
    ∀ (r : Reaction) (t u : Trace), react fuel r t = some u → react (fuel + 1) r t = some u := by
  induction fuel with
  | zero => exact fun r _ _ => reactWith_mono (fun hnone => by simp at hnone) r
  | succ fuel ih =>
    refine fun r _ _ => reactWith_mono (fun {field t x} hfired => ?_) r
    obtain ⟨mid, hloop, rfl⟩ := Option.map_eq_some_iff.1 hfired
    exact Option.map_eq_some_iff.2 ⟨mid, foldlM_mono ih _ hloop, rfl⟩

/-- Run all that is under way, where triggers nest less than `fuel` deep. -/
def unwind (fuel : Nat) : List Frame → Trace → Option Trace
  | [], t => some t
  | .running r :: below, t => (react fuel r t).bind (unwind fuel below)
  | .firing _ field count left next :: below, t =>
      (left.foldlM (fun t e => react fuel e.2 (t.note field e.1)) t).bind fun t =>
        (react fuel (next count) t).bind (unwind fuel below)

/-- What is unwound with some fuel is unwound with more. -/
theorem unwind_succ (fuel : Nat) (stack : List Frame) :
    ∀ {t u : Trace}, unwind fuel stack t = some u → unwind (fuel + 1) stack t = some u := by
  induction stack with
  | nil => exact id
  | cons frame below ih =>
    intro t u h
    cases frame with
    | running r =>
      obtain ⟨mid, hr, hbelow⟩ := Option.bind_eq_some_iff.1 h
      exact Option.bind_eq_some_iff.2 ⟨mid, react_succ fuel _ _ _ hr, ih hbelow⟩
    | firing i field count left next =>
      obtain ⟨mid, hleft, hrest⟩ := Option.bind_eq_some_iff.1 h
      obtain ⟨mid', hnext, hbelow⟩ := Option.bind_eq_some_iff.1 hrest
      exact Option.bind_eq_some_iff.2 ⟨mid, foldlM_mono (react_succ fuel) left hleft,
        Option.bind_eq_some_iff.2 ⟨mid', react_succ fuel _ _ _ hnext, ih hbelow⟩⟩

/-- The graph as it is now, and the calls so far behind earlier ones. -/
def Situation.trace (s : Situation) (log : List (String × String)) : Trace :=
  ⟨s.graph, logOf s.acts ++ log⟩

/-- **What is under way before a step comes to the same end as what is under way
after it,** and needs one more level of triggers at most. -/
theorem unwind_of_step {log : List (String × String)} {fuel : Nat} (h : Step Eq s t)
    (hend : unwind fuel t.stack (t.trace log) = some u) :
    unwind (fuel + 1) s.stack (s.trace log) = some u := by
  cases h with
  | done =>
    have hbelow := unwind_succ fuel _ hend
    exact hbelow
  | watch | unwatch =>
    refine unwind_succ fuel _ ?_
    cases fuel with
    | zero => exact hend
    | succ fuel => exact hend
  | @trigger field next below g n acts =>
    -- the callbacks of the trigger are run one level deeper than what comes after its answer
    obtain ⟨mid, hleft, hrest⟩ := Option.bind_eq_some_iff.1 hend
    obtain ⟨mid', hnext, hbelow⟩ := Option.bind_eq_some_iff.1 hrest
    have hfired : triggerWith (react fuel) field ⟨g, logOf acts ++ log⟩
        = some ((g.callbacks field).entries.length, mid) := Option.map_eq_some_iff.2 ⟨mid, hleft, rfl⟩
    have hreact : react (fuel + 1) (.trigger field next) ⟨g, logOf acts ++ log⟩ = some mid' := by
      show reactWith _ _ _ = _
      unfold reactWith
      rw [hfired]
      exact react_succ fuel _ _ _ hnext
    exact Option.bind_eq_some_iff.2 ⟨mid', hreact, unwind_succ fuel _ hbelow⟩
  | @call i field watcher count callback r left next below g n acts hmay =>
    obtain rfl := hmay
    refine unwind_succ fuel _ ?_
    obtain ⟨mid, hfirst, hrest⟩ := Option.bind_eq_some_iff.1 hend
    obtain ⟨mid', hleft, hafter⟩ := Option.bind_eq_some_iff.1 hrest
    have hloop : ((watcher, callback) :: left).foldlM
        (fun t e => react fuel e.2 (t.note field e.1)) ⟨g, logOf acts ++ log⟩ = some mid' := by
      rw [List.foldlM_cons]
      exact Option.bind_eq_some_iff.2 ⟨mid, hfirst, hleft⟩
    exact Option.bind_eq_some_iff.2 ⟨mid', hloop, hafter⟩
  | answer => exact unwind_succ fuel _ hend

/-- **A run of situations that ends is a run of the graph.** -/
theorem unwinds_of_runs (log : List (String × String)) (h : Runs Eq s t) (hend : t.stack = []) :
    ∃ fuel, unwind fuel s.stack (s.trace log) = some (t.trace log) := by
  induction h using ReflTransGen.head_induction_on with
  | refl => exact ⟨0, by rw [hend, unwind]⟩
  | head hstep _ ih =>
    obtain ⟨fuel, hrest⟩ := ih
    exact ⟨fuel + 1, unwind_of_step hstep hrest⟩

/-- A trigger whose calls all come to their end answers. -/
theorem trigger_of_runs {t : Trace} {s : Situation}
    (h : Runs Eq (.start (.trigger field fun _ => .done) t.graph) s) (hend : s.stack = []) :
    ∃ fuel, trigger fuel field t = some ((t.graph.callbacks field).size, s.trace t.log) := by
  obtain ⟨fuel, hunwind⟩ := unwinds_of_runs t.log h hend
  obtain ⟨mid, hreact, hmid⟩ := Option.bind_eq_some_iff.1 hunwind
  cases hmid
  cases fuel with
  | zero => simp [react, reactWith] at hreact
  | succ fuel =>
    refine ⟨fuel, ?_⟩
    unfold react reactWith at hreact
    split at hreact
    · simp at hreact
    · next n after hfired =>
      cases hreact
      exact answer_of_triggerWith hfired ▸ hfired

end Unwinds

/-! ## §7. The callbacks that a trigger calls. -/

/-- A run that has come to its end has made a step. -/
theorem transGen_of_ended {r : Reaction} {g : WatchGraph Reaction} (h : Runs may (.start r g) s)
    (hend : s.stack = []) : TransGen (Step may) (.start r g) s := by
  rcases Relation.reflTransGen_iff_eq_or_transGen.1 h with heq | hlater
  · simp [heq, Situation.start] at hend
  · exact hlater

/-- At the end, no trigger is under way. -/
theorem idle_of_ended (hend : s.stack = []) : s.Idle k := by simp [Situation.Idle, hend]

/-- Later, a trigger that is over has called the callbacks that were registered. -/
theorem calls_of_idle {field : String} {next : Nat → Reaction} {below : List Frame}
    (hs : s.Numbered) (hstack : s.stack = .running (.trigger field next) :: below)
    (hlater : TransGen (Step may) s t) (hidle : t.Idle s.triggers) :
    t.callsOf s.triggers = (s.graph.callbacks field).entries.map (fun e => (field, e))
      ∧ t.answersOf s.triggers = [(s.graph.callbacks field).size] := by
  obtain ⟨began, hbegins, hrest⟩ := TransGen.head'_iff.1 hlater
  have haccounts := (accounts_of_begins hs hstack hbegins).runs hrest
  obtain ⟨hcalls, hanswers⟩ := haccounts.of_idle hidle
  rw [List.length_map] at hanswers
  exact ⟨hcalls, hanswers⟩

/-- **A trigger calls those who watched when it began.**  In a cascade of any
callbacks, a trigger that was about to begin and is over now has itself called
the callbacks that were registered for its field at that moment, each once and
by name of the watcher, and has answered their number, whatever they did to the
graph.  So has a trigger of the graph that comes to its end: its calls and those
inside them are what it records.  And it comes to its end whenever the cascade
does, with the graph and the calls of the cascade. -/
theorem trigger_calls_registered :
    (∀ {may : Reaction → Reaction → Prop} {r : Reaction} {g : WatchGraph Reaction}
        {s t : Situation} {field : String} {next : Nat → Reaction} {below : List Frame},
      Runs may (.start r g) s → s.stack = .running (.trigger field next) :: below →
      TransGen (Step may) s t → t.Idle s.triggers →
        t.callsOf s.triggers = (s.graph.callbacks field).entries.map (fun e => (field, e))
          ∧ (t.callsOf s.triggers).Pairwise (fun a b => a.2.1 < b.2.1)
          ∧ t.answersOf s.triggers = [(s.graph.callbacks field).size])
      ∧ (∀ {fuel : Nat} {field : String} {t u : Trace} {n : Nat},
        trigger fuel field t = some (n, u) →
          ∃ s, Runs Eq (.start (.trigger field fun _ => .done) t.graph) s ∧ s.stack = []
            ∧ s.graph = u.graph ∧ u.log = logOf s.acts ++ t.log
            ∧ s.callsOf 0 = (t.graph.callbacks field).entries.map (fun e => (field, e))
            ∧ n = (t.graph.callbacks field).size)
      ∧ ∀ {field : String} {t : Trace} {s : Situation},
        Runs Eq (.start (.trigger field fun _ => .done) t.graph) s → s.stack = [] →
          ∃ fuel, trigger fuel field t
            = some ((t.graph.callbacks field).size, ⟨s.graph, logOf s.acts ++ t.log⟩) := by
  refine ⟨?_, ?_, trigger_of_runs⟩
  · intro may r g s t field next below hs hstack hlater hidle
    have hnumbered := Runs.numbered hs (numbered_start r g)
    obtain ⟨hcalls, hanswers⟩ := calls_of_idle hnumbered hstack hlater hidle
    refine ⟨hcalls, ?_, hanswers⟩
    rw [hcalls, List.pairwise_map]
    exact (s.graph.callbacks field).sorted
  · intro fuel field t u n h
    obtain ⟨k, acts, hruns, hlog⟩ :=
      (leads_of_triggerWith leads_of_react (fun _ => .done) [] h).trans (.of_step fun _ _ => .done)
        0 []
    rw [List.append_nil] at hruns
    have hlater := transGen_of_ended hruns rfl
    have hcalls := (calls_of_idle (numbered_start _ _) rfl hlater (idle_of_ended rfl)).1
    exact ⟨_, hruns, rfl, rfl, hlog, hcalls, answer_of_triggerWith h⟩

/-- A callback that takes another watcher and itself away, has a third one watch,
and triggers the field again. -/
def usurp : Reaction :=
  .unwatch "b" (.unwatch "a" (.watch "f" "c" .done fun _ => .trigger "f" fun _ => .done))

/-- Two watch a field, the first one as `usurp`. -/
def watchedTwice : WatchGraph Reaction :=
  ((WatchGraph.watch ∅ "f" "a" usurp).2.watch "f" "b" .done).2

/-- The second watcher is called although the first one has taken it away, and
the third one is not called by the trigger itself, but by the one inside. -/
theorem trigger_calls_registered_usurp :
    ∃ s u, trigger 2 "f" ⟨watchedTwice, []⟩ = some (2, u)
      ∧ u.log = [("f", "b"), ("f", "c"), ("f", "a")] ∧ u.graph.watcherNames "f" = ["c"]
      ∧ Runs Eq (.start (.trigger "f" fun _ => .done) watchedTwice) s ∧ s.stack = []
      ∧ s.graph = u.graph ∧ logOf s.acts = u.log
      ∧ s.callsOf 0 = [("f", "a", usurp), ("f", "b", .done)] ∧ s.answersOf 0 = [2]
      ∧ ∃ fuel, trigger fuel "f" ⟨watchedTwice, []⟩ = some (2, u) := by
  have hends : (trigger 2 "f" ⟨watchedTwice, []⟩).isSome = true := by decide
  obtain ⟨⟨n, u⟩, h⟩ := Option.isSome_iff_exists.1 hends
  have hlog : (trigger 2 "f" ⟨watchedTwice, []⟩).map (fun x => x.2.log)
      = some [("f", "b"), ("f", "c"), ("f", "a")] := by decide
  have hnames : (trigger 2 "f" ⟨watchedTwice, []⟩).map (fun x => x.2.graph.watcherNames "f")
      = some ["c"] := by decide
  rw [h, Option.map_some, Option.some.injEq] at hlog hnames
  obtain ⟨hcascade, hcalled, hanswered⟩ := trigger_calls_registered
  obtain ⟨s, hruns, hstack, hgraph, hrecorded, hcalls, rfl⟩ := hcalled h
  rw [List.append_nil] at hrecorded
  have hlater := transGen_of_ended hruns hstack
  obtain ⟨-, -, hanswers⟩ := hcascade .refl rfl hlater (idle_of_ended hstack)
  obtain ⟨fuel, hfuel⟩ := hanswered (t := ⟨watchedTwice, []⟩) hruns hstack
  rw [List.append_nil, hgraph, ← hrecorded] at hfuel
  exact ⟨s, u, h, hlog, hnames, hruns, hstack, hgraph, hrecorded.symm, hcalls, hanswers,
    fuel, hfuel⟩

end LazyFields.WatchGraph
