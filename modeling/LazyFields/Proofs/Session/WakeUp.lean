/-
  LazyFields.Proofs.Session.WakeUp
  ────────────────────────────────
  **NO LOST WAKE-UP.**

  A field that was resolved while something it needs was missing settles by
  itself as soon as everything is there, in whatever order the instances are
  created and whoever watches in the meantime (`settled_of_asked`).  What is
  asked of the owner is that no watcher poses as a field.

  The invariant is `Wakeful`: a field that is watched or was asked for, and has
  everything it needs, is settled, or some pending task leads to it along
  watches (`Due`).  When an instance is created, the fields that have become
  complete lead down to one of its fields, which are all to be woken
  (`due_of_add`).  From there each step of an operation hands the wake-up on.
-/
import LazyFields.Proofs.Catalog.Bound
import LazyFields.Proofs.Session.OnField
import LazyFields.Proofs.Session.Watchful

namespace LazyFields

/-! ## §1. Having everything. -/

/-- All instances that the field refers to, directly or not, are there. -/
inductive Outline.Supplied (o : Outline) : Node → Prop
  | intro {x : Node} {m : Member} {spec : FieldSpec} (hx : o.Declares x m spec)
      (hthere : ∀ reference ∈ spec.refs, (o.target x.1 reference).isSome)
      (hsupplied : ∀ reference ∈ spec.refs, ∀ y, o.target x.1 reference = some y →
        Supplied o y) : Supplied o x

namespace Outline

variable {o : Outline} {x y : Node} {m : Member} {spec : FieldSpec}

/-- A supplied field is there. -/
theorem Supplied.has (h : o.Supplied x) : o.Has x := by
  obtain ⟨hx, -, -⟩ := h
  exact ⟨_, _, hx⟩

/-- What a supplied field refers to is supplied. -/
theorem Supplied.of_refers (h : o.Supplied x) (hxy : o.Refers x y) : o.Supplied y := by
  obtain ⟨hx, -, hsupplied⟩ := h
  obtain ⟨m, spec, reference, hx', href, htarget⟩ := hxy
  obtain ⟨rfl, rfl⟩ := hx.eq hx'
  exact hsupplied reference href y htarget

/-- Whether the field has everything, where references nest less than `depth`
deep. -/
def isSupplied (o : Outline) : Nat → Node → Bool
  | 0, _ => false
  | depth + 1, x =>
    match o.member? x.1 with
    | none => false
    | some m =>
      !m.discarded && match m.kind.info.field? x.2 with
        | none => false
        | some spec => spec.refs.all fun reference =>
            match o.target x.1 reference with
            | none => false
            | some y => o.isSupplied depth y

/-- The test is sound. -/
theorem supplied_of_isSupplied (depth : Nat) (h : o.isSupplied depth x = true) :
    o.Supplied x := by
  induction depth generalizing x with
  | zero => simp [isSupplied] at h
  | succ depth ih =>
    unfold isSupplied at h
    split at h
    · simp at h
    · next m hm =>
      rw [Bool.and_eq_true, Bool.not_eq_true'] at h
      obtain ⟨hkept, h⟩ := h
      split at h
      · simp at h
      · next spec hspec =>
        have hrefs := List.all_eq_true.1 h
        refine .intro ⟨hm, hkept, hspec⟩ (fun reference href => ?_) fun reference href y hy => ?_
        · cases hy : o.target x.1 reference with
          | none => simpa [hy] using hrefs reference href
          | some y => rfl
        · exact ih (by simpa [hy] using hrefs reference href)

/-- What a field lacks is lacked by one of its references. -/
theorem exists_not_supplied (hx : o.Declares x m spec) (h : ¬ o.Supplied x) :
    ∃ reference ∈ spec.refs, ∀ y, o.target x.1 reference = some y → ¬ o.Supplied y := by
  by_contra hall
  have hsupplied : ∀ reference ∈ spec.refs, ∃ y, o.target x.1 reference = some y
      ∧ o.Supplied y := by
    intro reference href
    by_contra hno
    exact hall ⟨reference, href, fun y hy hs => hno ⟨y, hy, hs⟩⟩
  refine h (.intro hx (fun reference href => ?_) fun reference href y hy => ?_)
  · obtain ⟨y, hy, -⟩ := hsupplied reference href
    rw [hy, Option.isSome_some]
  · obtain ⟨y', hy', hs⟩ := hsupplied reference href
    obtain rfl : y' = y := Option.some.inj (hy'.symm.trans hy)
    exact hs

/-- **A field that has everything is ready**, if what it refers to is. -/
theorem Supplied.yields_ne_notReady (h : o.Supplied x) (ho : o.Sound)
    (hready : o.catalog.ComputesReady) {V : Node → Outcome → Prop}
    (hV : ∀ y r, o.Supplied y → V y r → r ≠ .error .notReady) {r : Outcome}
    (hr : o.Yields V x r) : r ≠ .error .notReady := by
  obtain ⟨hx, hthere, hsupplied⟩ := h
  obtain ⟨m, spec, g, hx', hg, hr⟩ := hr
  obtain ⟨rfl, rfl⟩ := hx.eq hx'
  have hne := hg.ne_notReady
    (fun target ht => by
      obtain ⟨reference, href, rfl⟩ := List.mem_map.1 ht
      exact hthere reference href)
    (fun y hy r => by
      obtain ⟨reference, href, htarget⟩ := List.mem_map.1 hy
      exact hV y r (hsupplied reference href y htarget))
  cases g with
  | error e =>
    rw [hr]
    simpa using hne
  | ok values =>
    obtain ⟨number, rfl⟩ := hr
    exact ho.outcome_ne_notReady hready hx values number

end Outline

/-! ## §2. The invariant. -/

namespace View

variable {v w : View} {x y : Node} {m : Member} {spec : FieldSpec} {tasks tasks' : List Task}

/-- A pending task leads to the field along watches. -/
def Due (v : View) (tasks : List Task) (x : Node) : Prop :=
  ∃ y, (.run (.recompute y.1 y.2) ∈ tasks ∨ .wake y ∈ tasks) ∧ v.Leads y x

/-- Whoever is watched or was asked for, and has everything, is settled; or a
pending task leads to it. -/
structure Wakeful (c : Catalog) (asked : Node → Prop) (tasks : List Task) (v : View) : Prop where
  regular : v.Regular
  catalog : v.outline.catalog = c
  /-- Fields of the new instance were not asked for. -/
  waiting : ∀ {x}, asked x → .wake x ∉ tasks
  settles : ∀ {x m spec}, v.outline.Declares x m spec →
    v.Watched (m.address x.2) ∨ asked x → v.outline.Supplied x →
    (∃ r, v.Settled x r) ∨ .attach x ∈ tasks ∨ v.Due tasks x

/-- What the task owes was done: the field is settled if it can be, and whoever
it prompts comes next. -/
def Settles (v : View) (tasks : List Task) : Task → Prop
  | .run (.recompute n field) => v.outline.Supplied (n, field) →
      (∃ r, v.Settled (n, field) r) ∧ ∀ z, v.Prompts (n, field) z →
        .run (.recompute z.1 z.2) ∈ tasks
  | .run (.report ..) => True
  | .enlist _ => True
  | .attach x => v.outline.Supplied x → ∃ r, v.Settled x r
  | .wake x => (∃ m spec, v.outline.Declares x m spec ∧ ¬ v.Watched (m.address x.2)) ∨
      (v.outline.Supplied x → (∃ r, v.Settled x r) ∧ ∀ z, v.Prompts x z →
        .run (.recompute z.1 z.2) ∈ tasks)

/-- Triggers lead from what is supplied to what is supplied. -/
theorem supplied_of_prompts (h : v.Regular) (hx : v.outline.Supplied x)
    (hyx : v.Leads y x) : v.outline.Supplied y := by
  induction hyx using Relation.ReflTransGen.head_induction_on with
  | refl => exact hx
  | head hprompts _ ih => exact ih.of_refers (h.refers_of_prompts hprompts)

/-- What was due is settled or still due, once the task that led to it is done. -/
theorem due_of_settles (hx : v.outline.Supplied x) (hregular : v.Regular)
    (hyx : v.Leads y x)
    (hdone : v.outline.Supplied y → (∃ r, v.Settled y r) ∧ ∀ z, v.Prompts y z →
      .run (.recompute z.1 z.2) ∈ tasks) : (∃ r, v.Settled x r) ∨ v.Due tasks x := by
  obtain ⟨hsettled, hnext⟩ := hdone (supplied_of_prompts hregular hx hyx)
  rcases hyx.cases_head with rfl | ⟨z, hyz, hzx⟩
  · exact .inl hsettled
  · exact .inr ⟨z, .inl (hnext z hyz), hzx⟩

namespace Wakeful

variable {c : Catalog} {asked : Node → Prop}

/-- **An operation goes on**: nothing settled is lost, whoever is watched anew
is to be registered, and whatever is not pending any more was done. -/
theorem advance (h : Wakeful c asked tasks v) (hregular : w.Regular) (hext : v.Extends w)
    (hsettled : ∀ {x r}, v.Settled x r → ∃ r, w.Settled x r)
    (hwatched : ∀ {x m spec}, v.outline.Declares x m spec → w.Watched (m.address x.2) →
      v.Watched (m.address x.2) ∨ .attach x ∈ tasks')
    (hwake : ∀ x, .wake x ∈ tasks' → .wake x ∈ tasks)
    (hdone : ∀ task ∈ tasks, task ∈ tasks' ∨ w.Settles tasks' task) :
    Wakeful c asked tasks' w where
  regular := hregular
  catalog := by rw [hext.outline, h.catalog]
  waiting {x} hx hw := h.waiting hx (hwake x hw)
  settles {x m spec} hx hreason hsupplied := by
    have hx' : v.outline.Declares x m spec := hext.outline ▸ hx
    by_cases hnew : .attach x ∈ tasks'
    · exact .inr (.inl hnew)
    have hold : v.Watched (m.address x.2) ∨ asked x :=
      hreason.imp (fun hw => (hwatched hx' hw).resolve_right hnew) id
    have hdue : ∀ {y}, v.Leads y x →
        (w.outline.Supplied y → (∃ r, w.Settled y r) ∧ ∀ z, w.Prompts y z →
          .run (.recompute z.1 z.2) ∈ tasks') →
        (∃ r, w.Settled x r) ∨ .attach x ∈ tasks' ∨ w.Due tasks' x := by
      intro y hyx hy
      have hyx' := Leads.extend hyx hext
      exact (due_of_settles hsupplied hregular hyx' hy).imp id .inr
    rcases h.settles hx' hold (hext.outline ▸ hsupplied) with ⟨r, hr⟩ | hattach | ⟨y, hy, hyx⟩
    · exact .inl (hsettled hr)
    · exact (hdone _ hattach).elim (fun ht => absurd ht hnew) fun hs => .inl (hs hsupplied)
    · have hyx' := Leads.extend hyx hext
      rcases hy with hrun | hy
      · rcases hdone _ hrun with ht | hs
        · exact .inr (.inr ⟨y, .inl ht, hyx'⟩)
        · exact hdue hyx hs
      · rcases hdone _ hy with ht | ⟨m', spec', hdecl, hnot⟩ | hs
        · exact .inr (.inr ⟨y, .inr ht, hyx'⟩)
        · -- nobody watches the field that was to be woken, so it leads nowhere
          rcases hyx'.cases_head with rfl | ⟨z, hyz, -⟩
          · obtain ⟨rfl, -⟩ := hx.eq hdecl
            exact absurd hy (h.waiting (hreason.resolve_left hnot))
          · exact absurd (hyz.watched hdecl) hnot
        · exact hdue hyx hs

/-- Only slots have changed. -/
theorem steady (h : Wakeful c asked tasks v) (hregular : w.Regular) (hs : v.Steady w)
    (hsettled : ∀ {x r}, v.Settled x r → ∃ r, w.Settled x r)
    (hwake : ∀ x, .wake x ∈ tasks' → .wake x ∈ tasks)
    (hdone : ∀ task ∈ tasks, task ∈ tasks' ∨ w.Settles tasks' task) :
    Wakeful c asked tasks' w := by
  refine h.advance hregular hs.extends hsettled ?_ hwake hdone
  rintro x m spec - ⟨name, f, hf⟩
  exact .inl ⟨name, f, callbacks_congr hs.watches _ ▸ hf⟩

/-- The first task is done, and prompts what `next` has to do. -/
theorem next {task : Task} (next : List Task) (h : Wakeful c asked (task :: tasks) v)
    (hregular : w.Regular) (hs : v.Steady w)
    (hsettled : ∀ {x r}, v.Settled x r → ∃ r, w.Settled x r)
    (hnext : ∀ x, .wake x ∉ next)
    (hdone : w.Settles (next ++ tasks) task) :
    Wakeful c asked (next ++ tasks) w := by
  refine h.steady hregular hs hsettled ?_ ?_
  · intro x hx
    exact List.mem_cons_of_mem _ ((List.mem_append.1 hx).resolve_left (hnext x))
  · intro other ht
    rcases List.mem_cons.1 ht with rfl | ht
    · exact .inr hdone
    · exact .inl (List.mem_append_right _ ht)

/-- Filling gaps settles fields and wakes none. -/
theorem fills {V : Node → Outcome → Prop} (h : Wakeful c asked tasks v)
    (k : v.Fills (fun _ => True) V w) : Wakeful c asked tasks w :=
  h.steady (h.regular.fills k) k.steady (fun hr => ⟨_, k.settled hr⟩) (fun _ ht => ht)
    fun _ ht => .inl ht

/-- Somebody watches a field. -/
theorem watch (h : Wakeful c asked tasks v) {address name : String} {f : FollowUp}
    {target : Option Node} (hfits : f.Fits v.outline address)
    (htarget : ∀ {x m spec}, v.outline.Declares x m spec → m.address x.2 = address →
      target = some x) :
    Wakeful c asked (v.firstWatch address target ++ tasks) (v.watch address name f) := by
  refine h.advance (h.regular.watch hfits) extends_watch
    (fun hr => ⟨_, hr.congr rfl⟩) ?_ ?_ ?_
  · intro x m spec hx hw
    exact (watched_of_watch (htarget hx) hw).imp id (List.mem_append_left _)
  · intro x hx
    exact (List.mem_append.1 hx).resolve_left not_wake_mem_firstWatch
  · exact fun task ht => .inl (List.mem_append_right _ ht)

/-- The entry of a computed field is replaced. -/
theorem put (h : Wakeful c asked tasks v) (hx : v.Computes x) {r : Outcome}
    (hr : r ≠ .error .notReady) (now : Int) :
    Wakeful c asked tasks (v.put x (some (.stored (Entry.ofOutcome r now)))) :=
  h.steady (h.regular.put hx hr now) ⟨rfl, rfl⟩ (settled_put_of_settled hr now) (fun _ ht => ht)
    fun _ ht => .inl ht

end Wakeful

/-- The outcomes that computing a field can have: if it has everything, it is
ready. -/
def Ready (v : View) (x : Node) (r : Outcome) : Prop := v.outline.Supplied x → r ≠ .error .notReady

/-- **Wake-ups survive every operation that creates nothing.** -/
theorem protocol_wakeful {c : Catalog} (hready : c.ComputesReady) (asked : Node → Prop) :
    Protocol (fun _ => True) Ready (Wakeful c asked) where
  regular h := h.regular
  closed {tasks v} h := by
    refine ⟨fun _ _ _ _ => trivial, fun {x r} hx _ hr _ => ?_, fun {x r} hx _ _ hr hsupplied => ?_⟩
    · rcases h.regular.slot x with hnone | ⟨r', hset⟩
      · simp [View.result?, hnone] at hr
      · obtain ⟨e, he, hr', hne⟩ := id hset
        obtain rfl : r' = r := Option.some.inj (hset.result?.symm.trans hr)
        exact hne
    -- what a supplied field refers to is ready, so the field is
    · exact hsupplied.yields_ne_notReady h.regular.sound (by rw [h.catalog]; exact hready)
        (fun y r hy hV => hV hy) hr
  scope _ := trivial
  fills h k := h.fills k
  report h := h.next [] h.regular (.refl _) (fun hr => ⟨_, hr⟩) (by simp) trivial
  stalls {tasks v n field} h hx hr := by
    refine h.next [] h.regular (.refl _) (fun hr => ⟨_, hr⟩) (by simp) fun hs => ?_
    exact absurd rfl (hs.yields_ne_notReady h.regular.sound (by rw [h.catalog]; exact hready)
      (fun y r hy hV => hV hy) hr)
  reruns {tasks v w n field m spec r} h hx hcomputed k hr hne now := by
    have hcomputes : w.Computes (n, field) := ⟨m, spec, k.outline ▸ hx, hcomputed⟩
    refine (h.fills k).next _ ((h.regular.fills k).put hcomputes hne now) ⟨rfl, rfl⟩
      (settled_put_of_settled hne now) (fun _ => not_wake_mem_followers)
      fun _ => ⟨⟨r, settled_put w _ hne now⟩, fun z hz => ?_⟩
    exact List.mem_append_left _ (hz.mem_followers (k.outline ▸ hx))
  fire address h := h.steady h.regular (.refl _) (fun hr => ⟨_, hr⟩)
    (fun x hx => (List.mem_append.1 hx).resolve_left not_wake_mem_followers)
    fun task ht => .inl (List.mem_append_right _ ht)
  enlist h _ := h.steady h.regular (.refl _) (fun hr => ⟨_, hr⟩) (fun x hx => by simpa using hx)
    fun task ht => .inl (List.mem_cons_of_mem _ ht)
  enlisted h _ := h.next [] h.regular (.refl _) (fun hr => ⟨_, hr⟩) (by simp) trivial
  follows {tasks v x m spec reference} h htask hx href := by
    refine h.watch ⟨m, spec, reference, hx, href, rfl⟩ fun {y m' spec'} hy haddress => ?_
    exact (h.regular.sound.target_iff hx href hy).2 haddress
  attached {tasks v w x a} h hattached k ha := by
    refine (h.fills k).next [] (h.regular.fills k) (.refl _) (fun hr => ⟨_, hr⟩) (by simp)
      fun hs => ?_
    obtain ⟨r, hV, ⟨rfl, -, -⟩ | ⟨hset, -⟩⟩ := ha
    · exact absurd rfl (hV (k.outline ▸ hs))
    · exact ⟨r, hset⟩
  watches {tasks v x m spec watcher} h hx _ := by
    refine h.watch ⟨m, hx.member⟩ fun {y m' spec'} hy haddress => ?_
    rw [h.regular.sound.address_inj hy hx haddress]
  sleeps {tasks v x m spec} h hx hnot :=
    h.next [] h.regular (.refl _) (fun hr => ⟨_, hr⟩) (by simp) (.inl ⟨m, spec, hx, hnot⟩)
  dozes {tasks v w x} h _ k hV _ := by
    refine (h.fills k).next [] (h.regular.fills k) (.refl _) (fun hr => ⟨_, hr⟩) (by simp)
      (.inr fun hs => ?_)
    exact absurd rfl (hV (k.outline ▸ hs))
  wakes {tasks v w x m spec r} h _ hx k hset := by
    refine (h.fills k).next _ (h.regular.fills k) (.refl _) (fun hr => ⟨_, hr⟩)
      (fun _ => not_wake_mem_followers) (.inr fun _ => ⟨⟨r, hset⟩, fun z hz => ?_⟩)
    exact List.mem_append_left _ (hz.mem_followers (k.outline ▸ hx))

/-- The invariant of runs in which no watcher poses as a field. -/
def Awake (c : Catalog) (asked : Node → Prop) (tasks : List Task) (v : View) : Prop :=
  Wakeful c asked tasks v ∧ v.Watchful asked tasks

/-- The invariant is kept along every task, if the catalog computes ready. -/
theorem protocol_awake {c : Catalog} (hready : c.ComputesReady) (asked : Node → Prop) :
    Protocol (fun watcher => True ∧ ¬ c.Addresses watcher) Ready (Awake c asked) :=
  (protocol_wakeful hready asked).watchful (fun h => h.catalog) asked

/-! ## §3. A new instance. -/

section Add

variable {c : Catalog} {asked : Node → Prop} {args : Args} {now : Int} {published : Table Nat}

/-- **A field that has become complete is due**: one of the fields to be woken
leads to it.  By induction on what it has. -/
theorem due_of_add (h : Awake c asked [] v) (hm : v.Lists m published)
    (hregular : (v.add m args now published).Regular)
    (hnew : (v.add m args now published).outline.Supplied x) :
    ∀ {m' spec'}, v.outline.Declares x m' spec' → v.Watched (m'.address x.2) ∨ asked x →
      ¬ v.outline.Supplied x →
      (v.add m args now published).Due (Session.wakes v.next m) x := by
  induction hnew with
  | @intro x m₁ spec₁ hx₁ hthere hsupplied ih =>
    intro m' spec hx hreason hnot
    obtain ⟨rfl, rfl⟩ := hx₁.eq ((grows_add hm).declares hx)
    have hattached : v.Attached x := by
      rcases hreason with hw | hask
      · exact (h.2.linked hx hw).resolve_right (by simp)
      · exact (h.2.enrolled hask).2
    have hattached' : (v.add m args now published).Attached x := hattached.add hx.member
    have hhonest : (v.add m args now published).Honest := (h.2.add h.1.regular hm).honest
    -- some reference was missing, or something that it needs
    obtain ⟨reference, href, hbad⟩ := Outline.exists_not_supplied hx hnot
    obtain ⟨y, hy⟩ := Option.isSome_iff_exists.1 (hthere reference href)
    have hprompts := hattached'.prompts hregular.sound hhonest
      ⟨_, _, reference, hx₁, href, hy⟩
    obtain ⟨m₂, spec₂, hy₂, haddress, -⟩ := hregular.sound.has_target hx₁ href hy
    rcases declares_add hy₂ with hold | ⟨hnew, rfl, hkept, hfield⟩
    · -- what was missing is missed by an older field, which leads here
      have hy' := (h.1.regular.sound.target_iff hx href hold).2 haddress
      obtain ⟨f, hf⟩ := hattached _ _ hx reference href
      have hwatched : v.Watched (m₂.address y.2) := ⟨_, f, haddress ▸ hf⟩
      obtain ⟨z, hz, hzy⟩ := ih reference href y hy hold (.inl hwatched) (hbad y hy')
      exact ⟨z, hz, hzy.tail hprompts⟩
    · obtain ⟨n, f⟩ := y
      obtain rfl : n = v.next := hnew
      exact ⟨_, .inr (wake_mem_wakes hkept hfield), .single hprompts⟩

/-- **A new instance leaves no wake-up to be lost.** -/
theorem Wakeful.add (h : Awake c asked [] v) (hm : v.Lists m published)
    (haccepts : m.kind.Accepts args) :
    Wakeful c asked (Session.wakes v.next m) (v.add m args now published) where
  regular := h.1.regular.add hm haccepts
  catalog := h.1.catalog
  waiting {x} hx := by
    obtain ⟨⟨m', spec', hdecl⟩, -⟩ := h.2.enrolled hx
    -- only fields of the new instance are to be woken
    have hlt := lt_next hdecl.member
    unfold Session.wakes
    split
    · simp
    · rintro hwake
      obtain ⟨f, -, heq⟩ := List.mem_map.1 hwake
      cases heq
      exact absurd hlt (Nat.lt_irrefl _)
  settles {x m' spec'} hx hreason hsupplied := by
    rcases declares_add hx with hold | ⟨hnew, rfl, hkept, hfield⟩
    · by_cases hs : v.outline.Supplied x
      · rcases h.1.settles hold hreason hs with ⟨r, hr⟩ | hattach | ⟨y, hy, -⟩
        · exact .inl ⟨r, hr.congr (add_slots_old hold.member)⟩
        · simp at hattach
        · simp at hy
      · exact .inr (.inr (due_of_add h hm (h.1.regular.add hm haccepts) hsupplied hold hreason hs))
    · obtain ⟨n, f⟩ := x
      obtain rfl : n = v.next := hnew
      exact .inr (.inr ⟨_, .inr (wake_mem_wakes hkept hfield), .refl⟩)

end Add

end View

/-! ## §4. Runs. -/

namespace Session

open LazyFields.Action

variable {c : Catalog} {config : Config} {s t : Session} {asked : Node → Prop}

/-- What the owner of a session does that forgets and stores nothing, where
`Allows` are the names that watchers may have. -/
inductive Patient (Allows : String → Prop) (s : Session) : Operation → Prop
  | create (kind : String) (args : Args) : Patient Allows s (.create kind args)
  | onField {n : Nat} {field : String} {op : Operation} (hn : s.Keeps n)
      (hop : OnField n field op)
      (hwatch : ∀ watcher, op = .watch n field watcher → Allows watcher) : Patient Allows s op

/-- The second session comes from the first one by such operations. -/
inductive Leads (Allows : String → Prop) : Session → Session → Prop
  | refl (s : Session) : Leads Allows s s
  | wait {s t : Session} (h : Leads Allows s t) (now : Int) : Leads Allows s { t with now }
  | perform {s t u : Session} {op : Operation} {fuel : Nat} {a : Except Error op.Answer}
      (h : Leads Allows s t) (hop : t.Patient Allows op) (hrun : t.run fuel op = some (a, u)) :
      Leads Allows s u

/-- An operation that is patient ends, with the invariant. -/
theorem awake_ends (hready : c.ComputesReady) (hprepares : c.PreparesAlone)
    (hidentifies : c.IdentifiesByStatics) (h : View.Awake c asked [] s.view) {op : Operation}
    (hop : s.Patient (fun watcher => ¬ c.Addresses watcher) op) :
    Ends (fun call => call op) s fun _ t => View.Awake c asked [] t.view := by
  have hcatalog : s.catalog = c := h.1.catalog
  cases hop with
  | create kind args =>
    exact create_ends (View.protocol_awake hready asked) h.1.regular.sound (hcatalog ▸ hprepares)
      (hcatalog ▸ hidentifies) h fun m now published _ hm haccepts =>
        ⟨.add h hm haccepts, h.2.add h.1.regular hm⟩
  | @onField n field op hn hop hwatch =>
    refine onField_ends (View.protocol_awake hready asked) hop h hn ?_ ?_
    · exact fun watcher heq => ⟨trivial, hwatch watcher heq⟩
    · intro _ v w m spec r hJ hx hcomputed hfills _ hr now
      refine ⟨(hJ.1.fills hfills).put ⟨m, spec, hfills.outline ▸ hx, hcomputed⟩ hr now, ?_⟩
      exact hJ.2.steady (hfills.steady.trans ⟨rfl, rfl⟩) fun _ ht => .inl ht

/-- The invariant holds along the sessions to which patient operations lead. -/
theorem awake_of_leads (hready : c.ComputesReady) (hprepares : c.PreparesAlone)
    (hidentifies : c.IdentifiesByStatics)
    (hrun : Leads (fun watcher => ¬ c.Addresses watcher) s t) (h : View.Awake c asked [] s.view) :
    View.Awake c asked [] t.view := by
  induction hrun with
  | refl => exact h
  | wait _ now ih => exact ih
  | perform _ hop hrun ih => exact (awake_ends hready hprepares hidentifies ih hop).of_run hrun

/-- A new session, in which nothing was asked, has the invariant. -/
theorem awake_new (hlawful : c.Lawful) (halone : c.ComputesAlone) (now : Int) :
    View.Awake c (fun _ => False) [] (Session.new c config now).view := by
  refine ⟨⟨regular_new config hlawful halone now, rfl, fun h => h.elim, fun {x m spec} hx => ?_⟩,
    watchful_new config now⟩
  have hmember := hx.member
  simp [Session.new, view, outline, Outline.member?] at hmember

/-- A field that was resolved in vain is waited for from then on. -/
theorem awake_of_asked (hready : c.ComputesReady) {x : Node} (hx : s.outline.Has x)
    (h : View.Awake c asked [] s.view) {fuel : Nat}
    (hask : s.run fuel (.resolve x.1 x.2) = some (.error .notReady, t)) :
    View.Awake c (· = x) [] t.view := by
  obtain ⟨v, hv, hext, hattached, hfills, hV, -⟩ :=
    (resolve_ends (View.protocol_awake hready asked) h hx).of_run hask
  obtain ⟨hwakeful, hwatchful⟩ := (View.protocol_awake hready asked).fills hv hfills
  have hho : t.view.outline = s.view.outline := hfills.outline.trans hext.outline
  constructor
  · refine ⟨hwakeful.regular, hwakeful.catalog, fun _ => by simp, ?_⟩
    rintro y m spec hy (hw | rfl) hsupplied
    · exact hwakeful.settles hy (.inl hw) hsupplied
    · exact absurd rfl (hV (hfills.outline ▸ hsupplied))
  · refine ⟨hwatchful.honest, ?_, hwatchful.linked, hwatchful.following⟩
    rintro _ rfl
    exact ⟨hho ▸ hx, hattached.extend hfills.steady.extends⟩

/-! ## §5. The theorem. -/

/-- **No wake-up is lost** as long as no watcher poses as a field.  A field that
was resolved while it was not ready is settled in every later session in which
everything it needs is there. -/
theorem settled_of_asked {file : Source.File} {schema : Schema} (hfile : file.Accepted schema)
    (hc : c.Over schema) (halone : c.ComputesAlone) (hready : c.ComputesReady)
    (hprepares : c.PreparesAlone) (hidentifies : c.IdentifiesByStatics) {now : Int}
    (hbefore : Leads (fun watcher => ¬ c.Addresses watcher) (.new c config now) s) {x : Node} (hx : s.outline.Has x) {fuel : Nat}
    {s' : Session} (hask : s.run fuel (.resolve x.1 x.2) = some (.error .notReady, s'))
    (hafter : Leads (fun watcher => ¬ c.Addresses watcher) s' t) (hsupplied : t.outline.Supplied x) :
    ∃ i, t.instance? x.1 = some i
      ∧ (i.cache.status x.2 = .valid ∨ i.cache.status x.2 = .error) := by
  have hs := awake_of_leads hready hprepares hidentifies hbefore
    (awake_new (hfile.lawful hc) halone now)
  have ht := awake_of_leads hready hprepares hidentifies hafter (awake_of_asked hready hx hs hask)
  obtain ⟨m, spec, hdecl⟩ := hsupplied.has
  obtain ⟨i, hi, -⟩ := instance_of_member? hdecl.member
  refine ⟨i, hi, ?_⟩
  rcases ht.1.settles hdecl (.inr rfl) hsupplied with ⟨r, hset⟩ | hattach | ⟨y, hy, -⟩
  · exact status_of_settled hi hset
  · simp at hattach
  · simp at hy

section Sample

open LazyFields.Sample

/-- The sample after `f` was resolved in vain: `x` is not there. -/
def asksF : Session := after hasR (.resolve 0 "f")

/-- Once `x` is there, `f` is settled. -/
theorem settled_f : ∃ i, (after asksF createX).instance? 0 = some i
    ∧ (i.cache.status "f" = .valid ∨ i.cache.status "f" = .error) := by
  obtain ⟨_, hr⟩ := run_after start (.create "r" ∅) (by decide +kernel)
  obtain ⟨_, hx⟩ := run_after asksF createX (by decide +kernel)
  have hask : hasR.run 20 (.resolve 0 "f") = some (.error .notReady, asksF) :=
    run_notReady (by decide +kernel)
  exact settled_of_asked (x := (0, "f")) accepted catalog_over computesPurely.1 computesReady preparesAlone
    identifiesByStatics ((Leads.refl start).perform (.create _ _) hr) (by decide +kernel) hask
    ((Leads.refl asksF).perform (.create _ _) hx)
    (Outline.supplied_of_isSupplied 5 (by decide +kernel))

/-- The field `g` is watched under the name of the field `f`. -/
def posesAsF : Session := after hasR (.watch 0 "g" "r\x00\x00f")

/-- Then `f` is resolved in vain. -/
def asksPosed : Session := after posesAsF (.resolve 0 "f")

/-- **A watcher that poses as a field takes its wake-up.**  It is prompted in the
place of `f`, which stays unset although everything it needs is there. -/
theorem posing_watcher_loses_wakeup : ¬ ∀ {s s' t : Session} {x : Node} {fuel : Nat},
    Leads (fun _ => True) start s → s.outline.Has x →
    s.run fuel (.resolve x.1 x.2) = some (.error .notReady, s') → Leads (fun _ => True) s' t →
    t.outline.Supplied x → ∃ i, t.instance? x.1 = some i
      ∧ (i.cache.status x.2 = .valid ∨ i.cache.status x.2 = .error) := by
  intro h
  obtain ⟨_, hr⟩ := run_after start (.create "r" ∅) (by decide +kernel)
  obtain ⟨_, hw⟩ := run_after hasR (.watch 0 "g" "r\x00\x00f") (by decide +kernel)
  obtain ⟨_, hx⟩ := run_after asksPosed createX (by decide +kernel)
  have hask : posesAsF.run 20 (.resolve 0 "f") = some (.error .notReady, asksPosed) :=
    run_notReady (by decide +kernel)
  have hposes : hasR.Patient (fun _ => True) (.watch 0 "g" "r\x00\x00f") :=
    .onField (by decide +kernel) (.watch _) fun _ _ => trivial
  have hbefore : Leads (fun _ => True) start posesAsF :=
    ((Leads.refl start).perform (.create _ _) hr).perform hposes hw
  obtain ⟨i, hi, hstatus⟩ := h (x := (0, "f")) hbefore (by decide +kernel) hask
    ((Leads.refl asksPosed).perform (.create _ _) hx)
    (Outline.supplied_of_isSupplied 5 (by decide +kernel))
  have hunset : ((after asksPosed createX).instance? 0).any (fun i =>
      i.cache.status "f" = .unset) = true := by decide +kernel
  rw [hi, Option.any_some, decide_eq_true_eq] at hunset
  rw [hunset] at hstatus
  simp at hstatus

end Sample

end Session

end LazyFields
