/-
  LazyFields.Proofs.Session.AtMostOnce
  ────────────────────────────────
  **LOGIC IS CALLED AT MOST ONCE.**

  Watching a field makes it follow others, and a field that follows is computed
  again when what it follows is triggered.  Still nothing is computed twice by
  questions alone (`called_at_most_once`):

    · a field that refers to nothing is computed at most once for an instance in
      a whole run, in which instances are created and fields are triggered
    · while there are questions only, so is every field; it is not computed if it
      was settled, and what it was computed to is read back ever after

  The reason is that a field that somebody watches is settled, unless it waits for
  what it refers to (`Calm.timely`), so that nobody who reads a field is the first
  to compute it for its watchers.
-/
import LazyFields.Proofs.Session.Calm
import LazyFields.Proofs.Session.Reading

namespace LazyFields

namespace Session

open LazyFields.Action

variable {s t u : Session} {x : Node} {m : Member} {spec : FieldSpec} {c : Catalog}
  {config : Config} {r : Outcome} {op : Operation}

/-! ## §1. Runs. -/

/-- A question about fields of instances that are there. -/
inductive Query (s : Session) : Operation → Prop
  | register {n : Nat} (hn : s.Keeps n) (field : String) : Query s (.register n field)
  | compute {n : Nat} (hn : s.Keeps n) (field : String) : Query s (.compute n field)
  | field {n : Nat} (hn : s.Keeps n) (field : String) : Query s (.field n field)
  | resolve {n : Nat} (hn : s.Keeps n) (field : String) : Query s (.resolve n field)
  | await {n : Nat} (hn : s.Keeps n) (field : String) (retries : Nat) :
      Query s (.await n field retries)
  | watch {n : Nat} (hn : s.Keeps n) (field watcher : String) : Query s (.watch n field watcher)
  | resolveAll {ns : List Nat} (hns : ∀ n ∈ ns, s.Keeps n) (field : String) (failFast : Bool) :
      Query s (.resolveAll ns field failFast)

/-- The second session comes from the first one by questions, and by the time that goes on. -/
inductive Stretch : Session → Session → Prop
  | refl (s : Session) : Stretch s s
  | wait {s t : Session} (h : Stretch s t) (now : Int) : Stretch s { t with now }
  | query {s t u : Session} {op : Operation} {fuel : Nat} {a : Except Error op.Answer}
      (h : Stretch s t) (hop : t.Query op) (hrun : t.run fuel op = some (a, u)) : Stretch s u
  /-- A pool resolves one field of many instances, in whatever order. -/
  | parallel {s t u : Session} {ns : List Nat} {field : String} {config : Config}
      {order : List (Nat × Nat)} {fuel : Nat} {a : Except Error (List Outcome)}
      (h : Stretch s t) (hns : ∀ n ∈ ns, t.Keeps n) (horder : order.Perm ns.zipIdx)
      (hrun : (resolveParallel (perform fuel) ns field config order).runOn t = some (a, u)) :
      Stretch s u

/-- What else the owner of a session does who computes nothing again, and forgets and stores
nothing by hand. -/
inductive Unforced (s : Session) : Operation → Prop
  | live (n : Nat) : Unforced s (.live n)
  | create (kind : String) (args : Args) : Unforced s (.create kind args)
  | trigger {n : Nat} (hn : s.Keeps n) (field : String) : Unforced s (.trigger n field)
  | find (kind id : String) : Unforced s (.find kind id)
  | findWhere (kind field : String) (value : Value) : Unforced s (.findWhere kind field value)
  | list (kind : String) : Unforced s (.list kind)
  | unregister (watcher : String) : Unforced s (.unregister watcher)

/-- The sessions that the owner of a new one can reach in this way. -/
inductive Runs (c : Catalog) (config : Config) : Session → Prop
  | new (now : Int) : Runs c config (.new c config now)
  | stretch {s t : Session} (h : Runs c config s) (hst : Stretch s t) : Runs c config t
  | perform {s t : Session} {op : Operation} {fuel : Nat} {a : Except Error op.Answer}
      (h : Runs c config s) (hop : s.Unforced op) (hrun : s.run fuel op = some (a, t)) :
      Runs c config t

section Calm

variable (halone : c.ComputesAlone) (hready : c.ComputesReady)

include halone hready

/-- **Questions memoize**, and find no field overdue. -/
theorem memoizing_query (hs : s.Calm c) (hop : s.Query op) (fuel : Nat) :
    Memoizing False s.view.outline (perform fuel op) s fun _ _ => True := by
  cases fuel with
  | zero => exact .stuck
  | succ fuel =>
    have hcatalog : s.view.outline.catalog = c := hs.catalog
    have hperform := memoizing_perform hs.sound (hcatalog ▸ halone) (hcatalog ▸ hready) False
    have hmemo := hperform (fuel + 1)
    cases hop with
    | @register n hn field =>
      exact (hmemo.register (x := (n, field)) hs.orderly hn.outline).mono fun _ _ _ => trivial
    | @compute n hn field =>
      exact (hmemo.compute (x := (n, field)) hs.orderly hn.outline).mono fun _ _ _ => trivial
    | @field n hn field =>
      exact (hmemo.field (x := (n, field)) hs.orderly hn.outline (.inr (hs.timely _))).mono
        fun _ _ _ => trivial
    | @resolve n hn field =>
      exact (hmemo.resolve (x := (n, field)) hs.orderly hn.outline).mono fun _ _ _ => trivial
    | @await n hn field retries =>
      exact (memoizing_retryField (x := (n, field)) (hperform fuel) hn.outline retries s
        hs.orderly).mono fun _ _ _ => trivial
    | @watch n hn field watcher =>
      exact memoizing_watchField (x := (n, field)) hs.sound (hperform fuel) hs.orderly hn.outline
        watcher
    | @resolveAll ns hns field failFast =>
      intro a t hrun
      obtain ⟨⟨ht, hst⟩, -⟩ := (resolveAll_recalls hs.sound (hcatalog ▸ halone) (hcatalog ▸ hready)
        hs.orderly (fun n hn => (hns n hn).outline) failFast).of_run hrun
      exact ⟨ht, hst, trivial⟩

/-- **Between two moments of a stretch no field is computed twice.** -/
theorem calm_stretch (hs : s.Calm c) (h : Stretch s t) : s.Memoizes False t ∧ t.Calm c := by
  induction h with
  | refl => exact ⟨.refl _ _, hs⟩
  | @wait t _ now ih =>
    obtain ⟨hst, ht⟩ := ih
    have hwait : t.Memoizes False { t with now } := .of_view rfl fun _ _ _ => rfl
    exact ⟨hst.trans hwait, ht.memoizes (ht.orderly.congr rfl rfl) (hwait.mono False.elim)⟩
  | query _ hop hrun ih =>
    obtain ⟨hst, ht⟩ := ih
    obtain ⟨hu, htu, -⟩ := memoizing_query halone hready ht hop _ _ _ hrun
    exact ⟨hst.trans htu, ht.memoizes hu (htu.mono False.elim)⟩
  | parallel _ hns horder hrun ih =>
    obtain ⟨hst, ht⟩ := ih
    have hcatalog := ht.catalog
    obtain ⟨⟨hu, htu⟩, -⟩ := (resolveParallel_recalls ht.sound (hcatalog ▸ halone)
      (hcatalog ▸ hready) ht.orderly (fun n hn => (hns n hn).outline) _ horder).of_perform
        (fun hcall => resolveParallel_refines hcall _ _ _ _) hrun
    exact ⟨hst.trans htu, ht.memoizes hu (htu.mono False.elim)⟩

/-- Whatever else the owner does leaves the session calm. -/
theorem calm_unforced (hs : s.Calm c) (hprepares : c.PreparesAlone)
    (hidentifies : c.IdentifiesByStatics) (hop : s.Unforced op) (fuel : Nat) :
    (perform fuel op).Returns s fun _ t => t.Calm c := by
  cases fuel with
  | zero => exact fun _ _ hrun => by cases hrun
  | succ fuel =>
    have hcatalog : s.view.outline.catalog = c := hs.catalog
    have hperform := memoizing_perform hs.sound (hcatalog ▸ halone) (hcatalog ▸ hready) True
    have hmemo : ∀ {α : Type} {a : Action α} {Q : Except Error α → Session → Prop},
        Memoizing True s.view.outline a s Q → a.Returns s fun _ t => t.Calm c :=
      fun h => Returns.mono h fun _ _ ht => hs.memoizes ht.1 ht.2.1
    cases hop with
    | live n => exact hmemo (memoizing_live hs.orderly n)
    | create kind args => exact calm_create halone hready hs hprepares hidentifies fuel kind
    | @trigger n hn field =>
      exact hmemo ((hperform (fuel + 1)).trigger (x := (n, field)) trivial hs.orderly hn.outline)
    | find kind id => exact hmemo (memoizing_lookup hs.orderly kind id)
    | findWhere kind field value =>
      exact hmemo (memoizing_findWhere (hperform fuel) hs.sound hs.orderly value)
    | list kind => exact hmemo (memoizing_listKind hs.orderly kind)
    | unregister watcher => exact .of_runOn (runOn_modify _) (hs.unwatch watcher)

/-- **Every session of such a run is calm.** -/
theorem calm_runs (hlawful : c.Lawful) (hprepares : c.PreparesAlone)
    (hidentifies : c.IdentifiesByStatics) (hs : Runs c config s) : s.Calm c := by
  induction hs with
  | new now => exact calm_new hlawful halone config now
  | stretch _ hst ih => exact (calm_stretch halone hready ih hst).2
  | perform _ hop hrun ih =>
    exact calm_unforced halone hready ih hprepares hidentifies hop _ _ _ hrun

/-- A field that was settled at one moment of a stretch is read back at every later one. -/
theorem readsBack_of_stretch (hs : s.Calm c) (h : Stretch s t)
    (hx : s.view.outline.Declares x m spec) (hcomputed : spec.isStatic = false)
    (hset : s.view.Settled x r) : t.ReadsBack x r := by
  obtain ⟨hst, ht⟩ := calm_stretch halone hready hs h
  have hcatalog : t.view.outline.catalog = c := ht.catalog
  have hslot := ((hst.fate hx hcomputed nofun).kept_of_not_open hset.not_open).1
  exact readsBack_of_settled ht.sound (hcatalog ▸ halone) (hcatalog ▸ hready) ht.orderly
    (hst.outline ▸ hx) hcomputed (hset.congr hslot)

end Calm

/-! ## §2. The theorem. -/

/-- The logic of a field that refers to nothing was called at most once for each
instance. -/
theorem Calm.calls_le_one (hs : s.Calm c) {kind id field : String}
    (hfield : c.field? (kind, field) = some spec) (hcomputed : spec.isStatic = false)
    (hrefs : spec.refs = []) : (callsOf kind id field s.journal).length ≤ 1 := by
  by_cases hthere : ∃ n m, s.view.outline.member? n = some m ∧ m.discarded = false
      ∧ m.kind.name = kind ∧ m.id = id
  · obtain ⟨n, m, hm, hkept, rfl, rfl⟩ := hthere
    have hkind : c.kinds.get? m.kind.name = some m.kind := hs.catalog ▸ hs.sound.kind hm
    rw [Catalog.field?_of_kind hkind] at hfield
    exact (hs.once (x := (n, field)) ⟨hm, hkept, hfield⟩ hcomputed hrefs).1
  · have hnone : callsOf kind id field s.journal = [] := hs.others fun n m hm hkept hkind hid =>
      hthere ⟨n, m, hm, hkept, hkind, hid⟩
    rw [hnone]
    exact Nat.zero_le 1

/-- **Logic is called at most once.**  In a whole run the logic of a field that refers to
nothing is called at most once for each instance.  In any stretch of questions the logic of
every computed field is called at most once, not at all if the field was settled, and the
outcome of that call is what every later question in the stretch is answered with. -/
theorem called_at_most_once {file : Source.File} {schema : Schema} (hfile : file.Accepted schema)
    (hc : c.Over schema) (halone : c.ComputesAlone) (hready : c.ComputesReady)
    (hprepares : c.PreparesAlone) (hidentifies : c.IdentifiesByStatics) (hs : Runs c config s) :
    (∀ {kind id field : String} {spec : FieldSpec}, c.field? (kind, field) = some spec →
      spec.isStatic = false → spec.refs = [] → (callsOf kind id field s.journal).length ≤ 1)
    ∧ ∀ {t : Session}, Stretch s t → ∀ {x : Node} {m : Member} {spec : FieldSpec},
      s.outline.Declares x m spec → spec.isStatic = false →
        ((∃ r, s.view.Settled x r) → t.calls m x.2 = s.calls m x.2)
        ∧ (t.calls m x.2 = s.calls m x.2 ∨ ∃ values number,
          t.calls m x.2 = (values, number) :: s.calls m x.2
            ∧ ∀ {u : Session}, Stretch t u → u.ReadsBack x (m.outcome x spec values number)) := by
  have hcalm := calm_runs halone hready (hfile.lawful hc) hprepares hidentifies hs
  refine ⟨hcalm.calls_le_one, ?_⟩
  intro t hst x m spec hx hcomputed
  have hx : s.view.outline.Declares x m spec := hx
  obtain ⟨hmemo, ht⟩ := calm_stretch halone hready hcalm hst
  have hfate := hmemo.fate hx hcomputed nofun
  constructor
  · rintro ⟨r, hset⟩
    exact (hfate.kept_of_not_open hset.not_open).2
  · cases hfate with
    | kept _ hcalls => exact .inl hcalls
    | failed _ _ hcalls => exact .inl hcalls
    | @called _ values number hcalls hsettled =>
      refine .inr ⟨values, number, hcalls, fun htu => ?_⟩
      exact readsBack_of_stretch halone hready ht htu (hmemo.outline ▸ hx) hcomputed hsettled

section Counting

open LazyFields.Source
open LazyFields.Sample (echo after run_after)

/-- In `r` the field `a` refers to nothing, and `b` repeats it. -/
def countingFile : File where
  imports := []
  options := ∅
  packs := ∅
  resources := [⟨[], false, false, "r", none, none,
    [⟨[], .field ⟨"a", some [], some (.named "string")⟩, ⟨2, 3⟩⟩,
      ⟨[], .field ⟨"b", some ["a"], some (.named "string")⟩, ⟨3, 3⟩⟩], ⟨1, 1⟩⟩]

def countingSchema : Schema := countingFile.schema.toOption.getD ∅

theorem accepted_counting : countingFile.Accepted countingSchema where
  schema := by rfl
  noPacks := rfl
  bases := by
    unfold File.HasBases
    decide
  names := by
    unfold File.HasNames
    decide

/-- Logic that says how often it was called. -/
def count : ComputeLogic := fun _ _ number => .done (.ok (.string (toString number)))

def countsA : Catalog :=
  ((Catalog.ofSchema countingSchema).bind "r" "a" count).toOption.getD ∅

def counting : Catalog := (countsA.bind "r" "b" echo).toOption.getD ∅

theorem bind_countsA : (Catalog.ofSchema countingSchema).bind "r" "a" count = .ok countsA := by rfl

theorem bind_counting : countsA.bind "r" "b" echo = .ok counting := by rfl

/-- A session with an instance of `r`. -/
def created : Session := after (.new counting ⟨1, 1, false, fun _ => none⟩ 0) (.create "r" ∅)

/-- Its `a` is triggered. -/
def triggered : Session := after created (.trigger 0 "a")

/-- Its `b` is resolved. -/
def resolved : Session := after triggered (.resolve 0 "b")

theorem runs_triggered : Runs counting ⟨1, 1, false, fun _ => none⟩ triggered := by
  obtain ⟨_, hcreate⟩ :=
    run_after (.new counting ⟨1, 1, false, fun _ => none⟩ 0) (.create "r" ∅) (by decide +kernel)
  obtain ⟨_, htrigger⟩ := run_after created (.trigger 0 "a") (by decide +kernel)
  have hcreated : Runs counting ⟨1, 1, false, fun _ => none⟩ created := (Runs.new 0).perform (.create _ _) hcreate
  exact hcreated.perform (.trigger (by decide +kernel) _) htrigger

theorem stretch_resolved : Stretch triggered resolved := by
  obtain ⟨_, hresolve⟩ := run_after triggered (.resolve 0 "b") (by decide +kernel)
  exact (Stretch.refl triggered).query (.resolve (by decide +kernel) _) hresolve

/-- The logic of `a` was called once; that of `b` is called for the question, and what comes
of it is read back. -/
theorem called_once_resolved : (callsOf "r" "" "a" triggered.journal).length ≤ 1
    ∧ ∃ m spec values number, triggered.outline.Declares (0, "b") m spec
      ∧ resolved.calls m "b" = (values, number) :: triggered.calls m "b"
      ∧ resolved.ReadsBack (0, "b") (m.outcome (0, "b") spec values number) := by
  have hcount : ∀ self values number, (count self values number).IsPassive := fun _ _ _ => ⟨_, rfl⟩
  have hecho : ∀ self values number, (echo self values number).IsPassive := fun _ _ _ => ⟨_, rfl⟩
  have halone : counting.ComputesAlone :=
    ((Catalog.computesPurely_ofSchema _).1.bind hcount bind_countsA).bind hecho bind_counting
  have hready : counting.ComputesReady :=
    ((Catalog.computesReady_ofSchema _).bind (by simp [count, Program.result]) bind_countsA).bind
      (by simp [echo, Program.result]) bind_counting
  have hprepares : counting.PreparesAlone :=
    ((Catalog.preparesAlone_ofSchema _).bind bind_countsA).bind bind_counting
  have hidentifies : counting.IdentifiesByStatics :=
    ((Catalog.identifiesByStatics_ofSchema _).bind bind_countsA).bind bind_counting
  obtain ⟨hbare, hstretch⟩ := called_at_most_once accepted_counting
    (((Catalog.over_ofSchema _).bind bind_countsA).bind bind_counting) halone hready hprepares
    hidentifies runs_triggered
  constructor
  · have hfield : (counting.field? ("r", "a")).any
        (fun spec => spec.isStatic = false && spec.refs = []) = true := by decide +kernel
    obtain ⟨spec, hspec, hrefs⟩ := (Option.any_eq_true _ _).1 hfield
    simp only [Bool.and_eq_true, decide_eq_true_eq] at hrefs
    exact hbare hspec hrefs.1 hrefs.2
  · have hmember : (triggered.outline.member? 0).any (fun m => m.kind.name = "r" && m.id = ""
        && (m.kind.info.field? "b").any (fun spec => spec.isStatic = false)) = true := by
      decide +kernel
    obtain ⟨m, spec, hx⟩ : triggered.outline.Has (0, "b") := by decide +kernel
    have hm : triggered.outline.member? 0 = some m := hx.member
    have hb : m.kind.info.field? "b" = some spec := hx.field
    simp only [hm, hb, Option.any_some, Bool.and_eq_true, decide_eq_true_eq] at hmember
    obtain ⟨⟨hkind, hid⟩, hcomputed⟩ := hmember
    -- the journal became longer, so the logic was called
    have hcalled : (callsOf "r" "" "b" resolved.journal).length
        ≠ (callsOf "r" "" "b" triggered.journal).length := by decide +kernel
    obtain hsame | ⟨values, number, hcalls, hback⟩ := (hstretch stretch_resolved hx hcomputed).2
    · rw [calls, calls, hkind, hid] at hsame
      exact absurd (congrArg List.length hsame) hcalled
    · exact ⟨m, spec, values, number, hx, hcalls, hback (.refl resolved)⟩

end Counting

end Session

end LazyFields
