/-
  LazyFields.Proofs.Session.Watchful
  ────────────────────────────────
  **WHO WATCHES WHOM.**

  A field that is registered is `Attached`: it watches all its references.
  Whoever is watched for the first time is registered in turn, so between
  operations the fields below a registered one are registered as well.
  `Watchful` is that invariant, with the registrations that are still pending.

  Watchers are known by name only, and the first one of a name wins.  So the
  invariant asks that nobody else watches under the name of a field
  (`View.Honest`); an outsider who does takes the place of the field, which then
  waits in vain.

    · `Attached.prompts` — a registered field is prompted by what it refers to
    · `Protocol.watchful` — watchfulness can be added to every protocol
    · `Watchful.add`, `Watchful.unwatch` — a new instance, and a watcher less
-/
import LazyFields.Proofs.Session.Forget
import Mathlib.Logic.Relation

namespace LazyFields

/-! ## §1. Names of fields. -/

/-- The text is the name of a field in the watch graph, of some instance that
need not be there. -/
def Catalog.Addresses (c : Catalog) (name : String) : Prop :=
  ∃ p spec id, c.field? p = some spec ∧ name = fieldAddress p.1 id p.2

namespace Outline

variable {o : Outline} {x : Node} {m : Member} {spec : FieldSpec}

/-- The address of a field is an address of the catalog. -/
theorem Sound.addresses (ho : o.Sound) (hx : o.Declares x m spec) :
    o.catalog.Addresses (m.address x.2) :=
  ⟨(m.kind.name, x.2), spec, m.id, ho.catalog_field? hx, rfl⟩

/-- The first field refers to the second one, which is there. -/
def Refers (o : Outline) (x y : Node) : Prop :=
  ∃ m spec reference, o.Declares x m spec ∧ reference ∈ spec.refs ∧ o.target x.1 reference = some y

end Outline

namespace View

variable {v w : View} {x y z : Node} {m : Member} {spec : FieldSpec} {tasks tasks' : List Task}
  {address name : String} {f : FollowUp} {asked : Node → Prop}

/-- Under the name of a field nobody watches but the field itself. -/
def Honest (v : View) : Prop :=
  ∀ ⦃address name f⦄, (v.callbacks address).get? name = some f →
    (∃ x m spec, v.outline.Declares x m spec ∧ m.address x.2 = name ∧ f = .recompute x.1 x.2)
      ∨ ¬ v.outline.catalog.Addresses name

/-- Triggering the first field computes the second one again. -/
def Prompts (v : View) (y z : Node) : Prop :=
  ∃ m spec name, v.outline.Declares y m spec
    ∧ (v.callbacks (m.address y.2)).get? name = some (.recompute z.1 z.2)

/-- What watches under the name of a field computes that field again. -/
theorem Honest.eq_recompute (h : v.Honest) (ho : v.outline.Sound)
    (hx : v.outline.Declares x m spec)
    (hf : (v.callbacks address).get? (m.address x.2) = some f) : f = .recompute x.1 x.2 := by
  rcases h hf with ⟨y, m', spec', hy, hname, rfl⟩ | hnot
  · rw [ho.address_inj hy hx hname]
  · exact absurd (ho.addresses hx) hnot

/-- **A registered field is prompted by what it refers to.** -/
theorem Attached.prompts (h : v.Attached x) (ho : v.outline.Sound) (hhonest : v.Honest)
    (hxy : v.outline.Refers x y) : v.Prompts y x := by
  obtain ⟨m, spec, reference, hx, href, htarget⟩ := hxy
  obtain ⟨m', spec', hy, haddress, -⟩ := ho.has_target hx href htarget
  obtain ⟨f, hf⟩ := h m spec hx reference href
  obtain rfl := hhonest.eq_recompute ho hx hf
  exact ⟨m', spec', m.address x.2, hy, haddress ▸ hf⟩

/-- Whoever is prompted by a field refers to it. -/
theorem Regular.refers_of_prompts (h : v.Regular) (hyx : v.Prompts y x) :
    v.outline.Refers x y := by
  obtain ⟨m', spec', name, hy, hf⟩ := hyx
  obtain ⟨m, spec, reference, hx, href, haddress⟩ := h.fits hf
  exact ⟨m, spec, reference, hx, href, (h.sound.target_iff hx href hy).2 haddress.symm⟩

/-- A field that prompts another is watched. -/
theorem Prompts.watched (h : v.Prompts y x) (hy : v.outline.Declares y m spec) :
    v.Watched (m.address y.2) := by
  obtain ⟨m', spec', name, hy', hf⟩ := h
  obtain ⟨rfl, -⟩ := hy.eq hy'
  exact ⟨name, _, hf⟩

/-- A field that is prompted is among the followers. -/
theorem Prompts.mem_followers (h : v.Prompts y x) (hy : v.outline.Declares y m spec) :
    .run (.recompute x.1 x.2) ∈ v.followers (m.address y.2) := by
  obtain ⟨m', spec', name, hy', hf⟩ := h
  obtain ⟨rfl, -⟩ := hy.eq hy'
  exact View.mem_followers.2 ⟨name, _, hf, rfl⟩

/-- What prompts goes on prompting when watches are added. -/
theorem Prompts.extend (h : v.Prompts y x) (k : v.Extends w) : w.Prompts y x := by
  obtain ⟨m, spec, name, hy, hf⟩ := h
  exact ⟨m, spec, name, k.outline ▸ hy, k.callbacks hf⟩

/-- Triggers pass on from the first field to the second one. -/
abbrev Leads (v : View) : Node → Node → Prop := Relation.ReflTransGen v.Prompts

/-- What leads goes on leading when watches are added. -/
theorem Leads.extend (h : v.Leads y x) (k : v.Extends w) : w.Leads y x :=
  Relation.ReflTransGen.mono (fun _ _ hp => Prompts.extend hp k) _ _ h

/-! ## §2. The invariant. -/

/-- Whoever is watched is registered, and so is whoever watches on behalf of a
field; what is missing is pending.  `asked` are fields that were registered from
outside. -/
structure Watchful (asked : Node → Prop) (tasks : List Task) (v : View) : Prop where
  honest : v.Honest
  /-- Whatever was asked for is registered. -/
  enrolled : ∀ {x}, asked x → v.outline.Has x ∧ v.Attached x
  linked : ∀ {x m spec}, v.outline.Declares x m spec → v.Watched (m.address x.2) →
    v.Attached x ∨ .attach x ∈ tasks ∨ .wake x ∈ tasks
  following : ∀ {address name n field},
    (v.callbacks address).get? name = some (.recompute n field) →
    v.Attached (n, field) ∨ .enlist (n, field) ∈ tasks

/-- The registration that the task owes was made. -/
def Registered (v : View) : Task → Prop
  | .run _ => True
  | .enlist x => v.Attached x
  | .attach x => v.Attached x
  | .wake x => ∀ m spec, v.outline.Declares x m spec → v.Watched (m.address x.2) → v.Attached x

/-- An operation goes on: watches are only added, and whatever is not pending
any more was done. -/
theorem Watchful.advance (h : Watchful asked tasks v) (hext : v.Extends w) (hhonest : w.Honest)
    (hwatched : ∀ {x m spec}, v.outline.Declares x m spec → w.Watched (m.address x.2) →
      v.Watched (m.address x.2) ∨ .attach x ∈ tasks')
    (hfollowing : ∀ {address name n field},
      (w.callbacks address).get? name = some (.recompute n field) →
      (∃ address name, (v.callbacks address).get? name = some (.recompute n field))
        ∨ .enlist (n, field) ∈ tasks)
    (hdone : ∀ task ∈ tasks, task ∈ tasks' ∨ w.Registered task) : Watchful asked tasks' w where
  honest := hhonest
  enrolled hx := by
    obtain ⟨hhas, hattached⟩ := h.enrolled hx
    exact ⟨hext.outline ▸ hhas, hattached.extend hext⟩
  linked {x m spec} hx hw := by
    have hx' : v.outline.Declares x m spec := hext.outline ▸ hx
    rcases hwatched hx' hw with hold | hattach
    · rcases h.linked hx' hold with hattached | hattach | hwake
      · exact .inl (hattached.extend hext)
      · exact (hdone _ hattach).elim (fun ht => .inr (.inl ht)) .inl
      · exact (hdone _ hwake).elim (fun ht => .inr (.inr ht)) fun hdone => .inl (hdone m spec hx hw)
    · exact .inr (.inl hattach)
  following {address name n field} hf := by
    have henlist : .enlist (n, field) ∈ tasks →
        w.Attached (n, field) ∨ .enlist (n, field) ∈ tasks' :=
      fun ht => (hdone _ ht).elim .inr .inl
    rcases hfollowing hf with ⟨address, name, hold⟩ | ht
    · exact (h.following hold).elim (fun ha => .inl (ha.extend hext)) henlist
    · exact henlist ht

/-- Only slots have changed. -/
theorem Watchful.steady (h : Watchful asked tasks v) (hs : v.Steady w)
    (hdone : ∀ task ∈ tasks, task ∈ tasks' ∨ w.Registered task) : Watchful asked tasks' w := by
  have hcallbacks := callbacks_congr hs.watches
  refine h.advance hs.extends ?_ ?_ ?_ hdone
  · intro address name f hf
    rw [hcallbacks] at hf
    rw [hs.outline]
    exact h.honest hf
  · rintro x m spec hx ⟨name, f, hf⟩
    exact .inl ⟨name, f, hcallbacks _ ▸ hf⟩
  · intro address name n field hf
    exact .inl ⟨address, name, hcallbacks _ ▸ hf⟩

/-- Whoever is watched for the first time is to be registered. -/
theorem watched_of_watch {target : Option Node}
    (htarget : m.address x.2 = address → target = some x)
    (hw : (v.watch address name f).Watched (m.address x.2)) :
    v.Watched (m.address x.2) ∨ .attach x ∈ v.firstWatch address target := by
  obtain ⟨watcher, g, hg⟩ := hw
  rcases WatchGraph.get?_callbacks_of_watch hg with hold | ⟨-, haddress, -, -⟩
  · exact .inl ⟨watcher, g, hold⟩
  · by_cases hempty : (v.callbacks address).isEmpty = true
    · right
      rw [firstWatch, if_pos hempty, htarget haddress.symm]
      simp
    · left
      rw [haddress] at hempty
      exact Classical.not_not.1 (mt not_watched_iff.1 hempty)

/-- Who may watch: a field that is being registered, or somebody under a name
that is no field's. -/
inductive MayWatch (v : View) (tasks : List Task) : String → FollowUp → Prop
  | field {x : Node} {m : Member} {spec : FieldSpec} (hdecl : v.outline.Declares x m spec)
      (ht : .enlist x ∈ tasks) : MayWatch v tasks (m.address x.2) (.recompute x.1 x.2)
  | other {name : String} (h : ¬ v.outline.catalog.Addresses name) (n : Nat) (field watcher : String) :
      MayWatch v tasks name (.report n field watcher)

/-- Watches stay honest when one is added by somebody who may watch. -/
theorem Honest.watch (h : v.Honest) (hmay : v.MayWatch tasks name f) :
    (v.watch address name f).Honest := by
  intro other watcher g hg
  rcases WatchGraph.get?_callbacks_of_watch hg with hold | ⟨-, -, rfl, rfl⟩
  · exact h hold
  · cases hmay with
    | field hdecl => exact .inl ⟨_, _, _, hdecl, rfl, rfl⟩
    | other hnot => exact .inr hnot

/-- After a watch is added, the field that is watched for the first time is yet to
be attached. -/
theorem Watchful.watch (h : Watchful asked tasks v) {target : Option Node}
    (htarget : ∀ {x m spec}, v.outline.Declares x m spec → m.address x.2 = address →
      target = some x)
    (hmay : v.MayWatch tasks name f) :
    Watchful asked (v.firstWatch address target ++ tasks) (v.watch address name f) := by
  refine h.advance extends_watch (h.honest.watch hmay) ?_ ?_ ?_
  · intro x m spec hx hw
    exact (watched_of_watch (htarget hx) hw).imp id (List.mem_append_left _)
  · intro other watcher n field hg
    rcases WatchGraph.get?_callbacks_of_watch hg with hold | ⟨-, -, rfl, rfl⟩
    · exact .inl ⟨other, watcher, hold⟩
    · cases hmay with
      | field _ ht => exact .inr ht
  · exact fun task ht => .inl (List.mem_append_right _ ht)

/-- Only slots have changed, and the first task is done. -/
theorem Watchful.next {task : Task} (h : Watchful asked (task :: tasks) v) (hs : v.Steady w)
    (hdone : w.Registered task) (next : List Task) : Watchful asked (next ++ tasks) w := by
  refine h.steady hs fun other ht => ?_
  rcases List.mem_cons.1 ht with rfl | ht
  · exact .inr hdone
  · exact .inl (List.mem_append_right _ ht)

end View

/-- **Watchfulness can be added to every protocol.** -/
theorem Protocol.watchful {Allows : String → Prop} {V : View → Node → Outcome → Prop}
    {J : List Task → View → Prop} {c : Catalog} (P : Protocol Allows V J)
    (hc : ∀ {tasks v}, J tasks v → v.outline.catalog = c) (asked : Node → Prop) :
    Protocol (fun watcher => Allows watcher ∧ ¬ c.Addresses watcher) V
      (fun tasks v => J tasks v ∧ v.Watchful asked tasks) where
  regular h := P.regular h.1
  closed h := P.closed h.1
  scope h := P.scope h.1
  fills h k := ⟨P.fills h.1 k, h.2.steady k.steady fun _ ht => .inl ht⟩
  report h := ⟨P.report h.1, h.2.next (.refl _) trivial []⟩
  stalls h hx hr := ⟨P.stalls h.1 hx hr, h.2.next (.refl _) trivial []⟩
  reruns {tasks v w n field m spec r} h hx hcomputed k hr hne now := by
    have hput : w.Steady (w.put (n, field) (some (.stored (Entry.ofOutcome r now)))) := ⟨rfl, rfl⟩
    exact ⟨P.reruns h.1 hx hcomputed k hr hne now, h.2.next (k.steady.trans hput) trivial _⟩
  fire address h :=
    ⟨P.fire address h.1, h.2.steady (.refl _) fun _ ht => .inl (List.mem_append_right _ ht)⟩
  enlist h hx := ⟨P.enlist h.1 hx, h.2.steady (.refl _) fun _ ht => .inl (List.mem_cons_of_mem _ ht)⟩
  enlisted h hattached := ⟨P.enlisted h.1 hattached, h.2.next (.refl _) hattached []⟩
  follows {tasks v x m spec reference} h htask hx href := by
    refine ⟨P.follows h.1 htask hx href, h.2.watch ?_ (.field hx htask)⟩
    intro y m' spec' hy haddress
    exact ((P.regular h.1).sound.target_iff hx href hy).2 haddress
  attached h hattached k ha :=
    ⟨P.attached h.1 hattached k ha, h.2.next k.steady (hattached.extend k.steady.extends) []⟩
  watches {tasks v x m spec watcher} h hx hallowed := by
    refine ⟨P.watches h.1 hx hallowed.1, h.2.watch ?_ (.other (hc h.1 ▸ hallowed.2) _ _ _)⟩
    intro y m' spec' hy haddress
    rw [(P.regular h.1).sound.address_inj hy hx haddress]
  sleeps {tasks v x m spec} h hx hnot := by
    refine ⟨P.sleeps h.1 hx hnot, h.2.next (.refl _) (fun m' spec' hx' hw => ?_) []⟩
    obtain ⟨rfl, -⟩ := hx.eq hx'
    exact absurd hw hnot
  dozes h hattached k hV hnone := ⟨P.dozes h.1 hattached k hV hnone,
    h.2.next k.steady (fun _ _ _ _ => hattached.extend k.steady.extends) []⟩
  wakes h hattached hx k hset := ⟨P.wakes h.1 hattached hx k hset,
    h.2.next k.steady (fun _ _ _ _ => hattached.extend k.steady.extends) _⟩

namespace View

variable {v w : View} {x y z : Node} {m : Member} {spec : FieldSpec} {tasks tasks' : List Task}
  {address name : String} {f : FollowUp} {asked : Node → Prop}

/-- Followers are run, not woken. -/
theorem not_wake_mem_followers : .wake x ∉ v.followers address := by
  intro h
  obtain ⟨_, _, -, heq⟩ := mem_followers.1 h
  simp at heq

/-- The first watch of a field attaches it and wakes nothing. -/
theorem not_wake_mem_firstWatch {target : Option Node} : .wake x ∉ v.firstWatch address target := by
  unfold firstWatch
  split <;> simp

/-! ## §3. Between operations. -/

/-- Forgetting entries leaves every watch in place. -/
theorem Watchful.forget (h : Watchful asked [] v) (k : v.Forgets w) : Watchful asked [] w :=
  h.steady ⟨k.outline, k.watches⟩ (by simp)

/-- Somebody who is no field stops watching. -/
theorem Watchful.unwatch (h : Watchful asked [] v) (ho : v.outline.Sound)
    (hname : ¬ v.outline.catalog.Addresses name) : Watchful asked [] (v.unwatch name) := by
  have hkeep : ∀ {x}, v.Attached x → (v.unwatch name).Attached x := by
    intro x hx m spec hdecl reference href
    obtain ⟨f, hf⟩ := hx m spec hdecl reference href
    have hne : name ≠ m.address x.2 := by
      rintro rfl
      exact hname (ho.addresses hdecl)
    exact ⟨f, (WatchGraph.get?_callbacks_unwatch_of_ne hne).trans hf⟩
  constructor
  · exact fun address watcher f hf => h.honest (WatchGraph.get?_callbacks_of_unwatch hf)
  · exact fun hx => ⟨(h.enrolled hx).1, hkeep (h.enrolled hx).2⟩
  · rintro x m spec hx ⟨watcher, f, hf⟩
    exact (h.linked hx ⟨watcher, f, WatchGraph.get?_callbacks_of_unwatch hf⟩).imp hkeep (by simp)
  · intro address watcher n field hf
    exact (h.following (WatchGraph.get?_callbacks_of_unwatch hf)).imp hkeep (by simp)

/-- An old field has the references it had. -/
theorem Attached.add (h : v.Attached x) {args : Args} {now : Int} {published : Table Nat}
    {old : Member} (hx : v.outline.member? x.1 = some old) :
    (v.add m args now published).Attached x := by
  intro m' spec' hdecl reference href
  obtain rfl : m' = old := Option.some.inj (hdecl.member.symm.trans (add_member?_old hx))
  exact h m' spec' ⟨hx, hdecl.kept, hdecl.field⟩ reference href

/-- The fields of a kept new instance are woken. -/
theorem wake_mem_wakes {m : Member} {f : String} (hkept : m.discarded = false)
    (hfield : m.kind.info.field? f = some spec) : .wake (v.next, f) ∈ Session.wakes v.next m := by
  simp only [Session.wakes, hkept, Bool.false_eq_true, if_false]
  exact List.mem_map.2 ⟨f, Table.contains_iff_mem_keys.1 (Option.isSome_iff_exists.2 ⟨spec, hfield⟩),
    rfl⟩

/-- **A new instance**: its fields are to be woken. -/
theorem Watchful.add (h : Watchful asked [] v) (hregular : v.Regular) {args : Args} {now : Int}
    {published : Table Nat} (hm : v.Lists m published) :
    Watchful asked (Session.wakes v.next m) (v.add m args now published) where
  honest address watcher f hf := by
    rcases h.honest hf with ⟨x, m', spec', hx, hname, rfl⟩ | hnot
    · exact .inl ⟨x, m', spec', (grows_add hm).declares hx, hname, rfl⟩
    · exact .inr hnot
  enrolled {x} hx := by
    obtain ⟨⟨m', spec', hdecl⟩, hattached⟩ := h.enrolled hx
    exact ⟨⟨m', spec', (grows_add hm).declares hdecl⟩, hattached.add hdecl.member⟩
  linked {x m' spec'} hx hw := by
    rcases declares_add hx with hold | ⟨hnew, rfl, hkept, hfield⟩
    · have hattached := (h.linked hold hw).resolve_right (by simp)
      exact .inl (hattached.add hold.member)
    · obtain ⟨n, g⟩ := x
      obtain rfl : n = v.next := hnew
      exact .inr (.inr (wake_mem_wakes hkept hfield))
  following {address watcher n field} hf := by
    have hattached := (h.following hf).resolve_right (by simp)
    obtain ⟨m', spec', -, hx, -⟩ := hregular.fits hf
    exact .inl (hattached.add hx.member)

end View

/-- Nobody watches anything in a new session. -/
theorem Session.watchful_new {c : Catalog} (config : Config) (now : Int) :
    (Session.new c config now).view.Watchful (fun _ => False) [] := by
  refine ⟨?_, fun h => h.elim, ?_, ?_⟩
  · intro address name f hf
    simp [Session.new, view, View.callbacks] at hf
  · rintro x m spec hx -
    have hmember := hx.member
    simp [Session.new, view, outline, Outline.member?] at hmember
  · intro address name n field hf
    simp [Session.new, view, View.callbacks] at hf

end LazyFields
