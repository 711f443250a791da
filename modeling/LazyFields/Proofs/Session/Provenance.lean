/-
  LazyFields.Proofs.Session.Provenance
  ────────────────────────────────
  **WHERE A SESSION CAN COME FROM.**

  A session that came about over a catalog, by whatever operations and whatever
  was done to caches, claims, the time and the watch graph in between, has
  instances of the kinds of the catalog only, finds what it has published, and
  keeps the two tables of its watch graph inverse.

    · `Session.StemsFrom` — the sessions that come about
    · `Action.Retains` — what an action keeps of this, and of the watches, from any
      session on; operations do (`retains_perform`), since it outlasts them
    · `StemsFrom.runsOver`, `StemsFrom.keyed` — so it is true of all of them
    · `StemsFrom.standing` — computing and registering end on each of them, if
      the logic of fields asks nothing

  Logic may do what it likes.  Only that watches stay depends on it: none of it
  may ask to stop a watcher (`Catalog.KeepsWatches`).
-/
import LazyFields.Proofs.Session.Claims
import LazyFields.Proofs.Session.Lasting

namespace LazyFields

/-! ## §1. What every action keeps. -/

namespace Session

variable {c : Catalog} {s t u : Session}

/-- The second session runs over the catalog as well, and carries the watches of the
first one, unless logic stops watchers. -/
structure Carries (c : Catalog) (s t : Session) : Prop where
  runsOver : t.RunsOver c
  lists : c.KeepsWatches → ∀ {address watcher}, s.watches.Lists address watcher →
    t.watches.Lists address watcher

theorem Carries.trans (h : s.Carries c t) (k : t.Carries c u) : s.Carries c u :=
  ⟨k.runsOver, fun hkeeps _ _ hlists => k.lists hkeeps (h.lists hkeeps hlists)⟩

/-- A watch lasts, unless logic stops watchers. -/
theorem Carries.of_lasting (h : t.RunsOver c)
    (hlasts : c.KeepsWatches → ∀ W, c.Upholds W → W s.watches → t.Lasting c W) : s.Carries c t where
  runsOver := h
  lists hkeeps {address watcher} hlists :=
    (hlasts hkeeps (·.Lists address watcher)
      (hkeeps.upholds fun hg _ _ _ => WatchGraph.lists_watch.2 (.inr hg)) hlists).holds

end Session

open LazyFields.Action (Copies Outlasts Returns)

namespace Action

variable {α : Type} {c : Catalog} {a : Action α} {s u : Session}

/-- Whatever the action answers, from any session that runs over the catalog, it
leaves one that does. -/
def Retains (c : Catalog) (a : Action α) : Prop :=
  ∀ s : Session, s.RunsOver c → a.Returns s fun _ t => s.Carries c t

/-- What lasts is carried, also from another session on than the one before the action. -/
theorem carries_of_copies (h : ∀ W, c.Upholds W → W u.watches →
      Copies (· = s) a a fun _ => Session.Lasting c W) :
    a.Returns s fun _ t => u.Carries c t := by
  intro r t hrun
  refine .of_lasting ?_ fun _ W hW hu => (h W hW hu s rfl r t hrun).2
  have htrue : c.Upholds fun _ => True := c.upholds_of_forall fun _ => trivial
  exact (h _ htrue trivial s rfl r t hrun).2.runsOver

theorem Retains.of_outlasts (h : ∀ W, c.Upholds W → Outlasts c W a a) : Retains c a :=
  fun _ hs => carries_of_copies fun W hW hholds =>
    (h W hW).of_imp fun _ heq => heq ▸ ⟨hs, hholds⟩

end Action

/-- Whatever is asked of the performer that logic and functions may ask. -/
def Performer.Retains (c : Catalog) (call : Performer) : Prop :=
  ∀ op : Operation, (c.KeepsWatches → ¬ op.Unwatches) → Action.Retains c (call op)

namespace Session

open LazyFields.Action (Retains carries_of_copies)

variable {c : Catalog} {s t : Session} {n : Nat} {field : String}

/-- The two tables of the watch graph stay inverse whatever is asked. -/
theorem RunsOver.run (hs : s.RunsOver c) {fuel : Nat} {op : Operation}
    {r : Except Error op.Answer} (hrun : s.run fuel op = some (r, t)) : t.RunsOver c := by
  have hlasting : s.Lasting c fun _ => True := ⟨hs, trivial⟩
  exact (hlasting.run (c.upholds_of_forall fun _ => trivial)
    (op.respects_of_forall fun _ => trivial) hrun).runsOver

/-- **Operations carry the watches of a session,** if neither they nor logic stops watchers. -/
theorem retains_perform (c : Catalog) (fuel : Nat) : Performer.Retains c (perform fuel) := by
  intro op hop s hs r t hrun
  refine .of_lasting (hs.run hrun) fun hkeeps W hW hholds => ?_
  have hlasting : s.Lasting c W := ⟨hs, hholds⟩
  exact hlasting.run hW (op.respects_of_not_unwatches (hop hkeeps)) hrun

/-- What follows a target goes on from the session with the watch. -/
theorem carries_follow (hs : s.RunsOver c) {i : Instance} (hi : s.instance? n = some i)
    (fuel : Nat) (target : Target) (field : String) :
    (follow (perform fuel) target n field).Returns s fun _ t =>
      (s.watching target.address (i.fieldAddress field) (.recompute n field)).Carries c t :=
  carries_of_copies fun _ hW hw => outlasts_following (outlasts_perform hW fuel) hs hi target hw

/-- A declared field goes on from the session with the watch. -/
theorem carries_watchField (hs : s.RunsOver c) {i : Instance} (hi : s.instance? n = some i)
    {spec : FieldSpec} (hspec : i.kind.info.field? field = some spec) (fuel : Nat)
    (watcher : String) : (watchField (perform fuel) n field watcher).Returns s fun _ t =>
      (s.watching (i.fieldAddress field) watcher (.report n field watcher)).Carries c t :=
  carries_of_copies fun _ hW hw =>
    outlasts_watching (outlasts_perform hW fuel) hs hi hspec watcher hw

/-! ## §2. Sessions that come about. -/

/-- The session stems from the catalog: it came about by any operations, by
anything that is done between them to caches, claims, the time and the watch graph,
and by the end of its run. -/
inductive StemsFrom (c : Catalog) : Session → Prop where
  | new (config : Config) (now : Int) : StemsFrom c (.new c config now)
  | run {s t : Session} {fuel : Nat} {op : Operation} {r : Except Error op.Answer} :
      StemsFrom c s → s.run fuel op = some (r, t) → StemsFrom c t
  | edit {s t : Session} : StemsFrom c s → t.outline = s.outline → t.watches.Inverse →
      StemsFrom c t
  | finish {s : Session} : StemsFrom c s → StemsFrom c s.finish

/-- **Every session runs over the catalog that it stems from.** -/
theorem StemsFrom.runsOver (h : StemsFrom c s) : s.RunsOver c := by
  induction h with
  | new config now =>
    refine ⟨rfl, fun hm => ?_, WatchGraph.inverse_empty⟩
    simp [outline, Session.new, Outline.member?] at hm
  | run _ hrun ih => exact ih.run hrun
  | edit _ houtline hinverse ih =>
    exact ⟨(congrArg Outline.catalog houtline).trans ih.catalog, fun hm => ih.kind (houtline ▸ hm),
      hinverse⟩
  | finish _ ih => exact ⟨ih.catalog, ih.kind, WatchGraph.inverse_empty⟩

/-- **What is published is there,** under its own address. -/
theorem StemsFrom.keyed (h : StemsFrom c s) : s.outline.Keyed := by
  induction h with
  | new config now =>
    intro address n hn
    simp [outline, Session.new] at hn
  | run _ hrun ih => exact (evolves_run ih hrun).1
  | edit _ houtline _ ih => exact houtline ▸ ih
  | finish _ _ =>
    intro address n hn
    simp [outline, Session.finish] at hn

theorem RunsOver.standing (h : s.RunsOver c) (hkeyed : s.outline.Keyed)
    (halone : c.ComputesAlone) : s.view.outline.Standing where
  published hn := by
    obtain ⟨m, hm, -⟩ := hkeyed hn
    exact ⟨m, hm⟩
  alone hm hlogic := by
    obtain ⟨key, hkey⟩ := h.kind hm
    exact halone hkey hlogic

/-- **Computing and registering end on every session,** if the logic of fields asks
nothing. -/
theorem StemsFrom.standing (h : StemsFrom c s) (halone : c.ComputesAlone) :
    s.view.outline.Standing := h.runsOver.standing h.keyed halone

/-- The sample with an instance of `r`. -/
theorem stemsFrom_hasR : Sample.hasR.StemsFrom Sample.catalog := by
  obtain ⟨_, hr⟩ := Sample.run_after Sample.start (.create "r" ∅) (by decide +kernel)
  exact .run (.new ⟨1, 1, false, fun _ => none⟩ 0) hr

end Session

end LazyFields
