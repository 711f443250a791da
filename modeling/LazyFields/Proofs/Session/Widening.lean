/-
  LazyFields.Proofs.Session.Widening
  ────────────────────────────────
  **WHOEVER IS WATCHED WATCHES WHAT IT REFERS TO.**

  Only the first watcher of a field registers it, and only then does the field
  begin to watch its references.  While operations are under way a field may
  be watched already and not be registered yet, so an invariant of single
  moments would have to name all that is pending.  A comparison of two moments
  need not: from the start of an action to its end watches are only added, and
  a field that is watched for the first time watches its references by the end
  (`Session.Widens`).

    · `Session.Heard` — somebody watches the field, which is published
    · `Session.Covered` — the field watches everything that it refers to
    · `heard_of_watch` — one more watch makes no more than one field heard
    · `Action.Closes` — all of this for two runs of an action: the second one
      answers the same, or else a given field is covered in the end
    · `closesAt_register` — registering a field covers it

  Instances are compared by kind and id, since the names of fields in the watch
  graph tell no more: a discarded instance watches in the name of a published
  one.
-/
import LazyFields.Proofs.Session.History
import LazyFields.Proofs.Session.Tasks
import LazyFields.Proofs.WatchGraph.Indexes

namespace LazyFields

namespace Session

variable {c : Catalog} {s t u : Session} {x y : Node} {m m' : Member} {spec : FieldSpec}

/-! ## §1. Two moments of a session. -/

/-- The node is a declared field of a published instance. -/
structure Publishes (s : Session) (x : Node) (m : Member) (spec : FieldSpec) : Prop where
  published : ∃ address, s.published.get? address = some x.1
  member : s.outline.member? x.1 = some m
  field : m.kind.info.field? x.2 = some spec

/-- Somebody watches the field, which is published. -/
def Heard (s : Session) (x : Node) : Prop :=
  ∃ m spec watcher, s.Publishes x m spec ∧ s.watches.Lists (m.address x.2) watcher

/-- The field watches everything that it refers to, whether or not that is
there.  A field that is not declared refers to nothing. -/
def Covered (s : Session) (x : Node) : Prop :=
  ∃ m, s.outline.member? x.1 = some m ∧ ∀ spec, m.kind.info.field? x.2 = some spec →
    ∀ reference ∈ spec.refs, s.watches.Lists (m.targetAddress reference) (m.address x.2)

/-- The session runs over the catalog, and its tables are in order.  This holds
while operations are under way as well, but for the one instance that is under
construction. -/
structure Consistent (c : Catalog) (s : Session) : Prop where
  catalog : s.catalog = c
  live : s.live = true
  keyed : s.outline.Keyed
  kind : ∀ {n m}, s.outline.member? n = some m → c.kinds.get? m.kind.name = some m.kind
  inverse : s.watches.Inverse

/-- From the first session to the second one instances and watches are added,
and whoever is heard in the end was heard before or is covered. -/
structure Widens (s t : Session) : Prop where
  evolves : s.outline.Evolves t.outline
  lists : ∀ {address watcher}, s.watches.Lists address watcher → t.watches.Lists address watcher
  heard : ∀ {x}, t.Heard x → s.Heard x ∨ t.Covered x

/-- What is covered stays covered. -/
theorem Covered.widen (h : s.Covered x) (k : s.Widens t) : t.Covered x := by
  obtain ⟨m, hm, hall⟩ := h
  refine ⟨m, k.evolves.member hm, ?_⟩
  intro spec hspec reference href
  exact k.lists (hall spec hspec reference href)

/-- Of two instances of one kind and id, one watches in the name of the other. -/
theorem Covered.twin (h : s.Covered x) (hx : s.outline.member? x.1 = some m)
    (hy : s.outline.member? y.1 = some m') (hkind : m.kind = m'.kind) (hid : m.id = m'.id)
    (hfield : x.2 = y.2) : s.Covered y := by
  obtain ⟨m₂, hm₂, hall⟩ := h
  obtain rfl : m₂ = m := Option.some.inj (hm₂.symm.trans hx)
  refine ⟨m', hy, ?_⟩
  intro spec hspec reference href
  have hlists := hall spec (by rw [hkind, hfield]; exact hspec) reference href
  have htarget : m'.targetAddress reference = m₂.targetAddress reference := by
    simp only [Member.targetAddress, Member.address, hkind, hid]
  rw [htarget, Member.address, ← hkind, ← hid, ← hfield]
  exact hlists

theorem Widens.refl (s : Session) : s.Widens s := ⟨.refl _, id, .inl⟩

/-- Widening, and widening again. -/
theorem Widens.trans (h : s.Widens t) (k : t.Widens u) : s.Widens u where
  evolves := h.evolves.trans k.evolves
  lists hlists := k.lists (h.lists hlists)
  heard hx := by
    rcases k.heard hx with hmiddle | hcovered
    · exact (h.heard hmiddle).imp id fun hcovered => hcovered.widen k
    · exact .inr hcovered

/-- Instances that are not published make no difference. -/
theorem Widens.of_evolves (hs : s.outline.Keyed) (hevolves : s.outline.Evolves t.outline)
    (hpublished : t.published = s.published) (hwatches : t.watches = s.watches) :
    s.Widens t := by
  refine ⟨hevolves, fun hlists => hwatches ▸ hlists, ?_⟩
  rintro x ⟨m, spec, watcher, ⟨⟨address, hn⟩, hm, hspec⟩, hlists⟩
  left
  rw [hpublished] at hn
  rw [hwatches] at hlists
  -- what was published was there
  obtain ⟨m₂, hm₂, -⟩ := hs hn
  obtain rfl : m = m₂ := Option.some.inj (hm.symm.trans (hevolves.member hm₂))
  exact ⟨m, spec, watcher, ⟨⟨address, hn⟩, hm₂, hspec⟩, hlists⟩

/-- Only outline and watch graph count. -/
theorem Consistent.congr (h : s.Consistent c) (houtline : t.outline = s.outline)
    (hwatches : t.watches = s.watches) : t.Consistent c where
  catalog := (congrArg Outline.catalog houtline).trans h.catalog
  live := (congrArg Outline.live houtline).trans h.live
  keyed := houtline ▸ h.keyed
  kind hm := h.kind (houtline ▸ hm)
  inverse := hwatches ▸ h.inverse

/-- If both stay, the session widens itself. -/
theorem Consistent.widens (h : s.Consistent c) (houtline : t.outline = s.outline)
    (hwatches : t.watches = s.watches) : s.Widens t :=
  .of_evolves h.keyed (houtline ▸ .refl _) (congrArg Outline.published houtline) hwatches

/-! ## §2. One more watch. -/

section Watching

variable {address watcher : String} {f : FollowUp}

/-- A watch keeps a session consistent. -/
theorem Consistent.watching (h : s.Consistent c) :
    (s.watching address watcher f).Consistent c where
  catalog := h.catalog
  live := h.live
  keyed := h.keyed
  kind := h.kind
  inverse := h.inverse.watch address watcher f

/-- **One more watch makes a field heard only if nobody watched the address.** -/
theorem heard_of_watch (h : (s.watching address watcher f).Heard x) :
    s.Heard x ∨ (s.watches.callbacks address).isEmpty = true
      ∧ ∃ m spec, s.Publishes x m spec ∧ m.address x.2 = address := by
  obtain ⟨m, spec, name, ⟨hpublished, hm, hspec⟩, hlists⟩ := h
  have hpublishes : s.Publishes x m spec := ⟨hpublished, hm, hspec⟩
  rcases WatchGraph.lists_watch.1 hlists with ⟨haddress, -⟩ | hold
  · by_cases hempty : (s.watches.callbacks address).isEmpty = true
    · exact .inr ⟨hempty, m, spec, hpublishes, haddress.symm⟩
    · -- somebody else did, so it was heard before
      left
      rw [WatchGraph.isEmpty_callbacks_iff] at hempty
      push Not at hempty
      obtain ⟨other, hother⟩ := hempty
      exact ⟨m, spec, other, hpublishes, haddress ▸ hother⟩
  · exact .inl ⟨m, spec, name, hpublishes, hold⟩

/-- A watch goes on to a session that covers whoever became heard by it. -/
theorem Widens.of_watching (h : (s.watching address watcher f).Widens t)
    (hfirst : ∀ {x m spec}, (s.watches.callbacks address).isEmpty = true → s.Publishes x m spec →
      m.address x.2 = address → t.Covered x) : s.Widens t where
  evolves := h.evolves
  lists hlists := h.lists (WatchGraph.lists_watch.2 (.inr hlists))
  heard hx := by
    rcases h.heard hx with hwatched | hcovered
    · rcases heard_of_watch hwatched with hold | ⟨hempty, m, spec, hpublishes, haddress⟩
      · exact .inl hold
      · exact .inr (hfirst hempty hpublishes haddress)
    · exact .inr hcovered

/-- Watching once more changes nothing. -/
theorem watching_eq_self (hs : s.watches.Inverse) (h : s.watches.Lists address watcher) :
    s.watching address watcher f = s := by
  unfold watching
  rw [hs.watch_of_lists h]

end Watching

end Session

/-! ## §3. Two runs of an action. -/

namespace Action

variable {α β : Type} {c : Catalog} {x : Node}

/-- Whatever the first action answers, it widens the session, and `Q` holds of
what it leaves.  The second action answers the same; or else the node is
covered in the end. -/
def ClosesAt (c : Catalog) (x : Node) (a b : Action α) (s : Session)
    (Q : Except Error α → Session → Prop) : Prop :=
  ∀ r t, a.runOn s = some (r, t) →
    t.Consistent c ∧ s.Widens t ∧ Q r t ∧ (b.runOn s = some (r, t) ∨ t.Covered x)

/-- It does so from any session that is in order. -/
def Closes (c : Catalog) (x : Node) (a b : Action α) : Prop :=
  ∀ s : Session, s.Consistent c → ClosesAt c x a b s fun _ _ => True

variable {a b a' b' : Action α} {f g : α → Action β} {s t : Session}
  {P Q : Except Error α → Session → Prop} {R : Except Error β → Session → Prop}

namespace ClosesAt

/-- Less may be said of the end. -/
theorem mono (h : ClosesAt c x a b s P) (k : ∀ r t, s.Widens t → P r t → Q r t) :
    ClosesAt c x a b s Q := by
  intro r t hrun
  obtain ⟨ht, hwidens, hp, hcopy⟩ := h r t hrun
  exact ⟨ht, hwidens, k r t hwidens hp, hcopy⟩

/-- Two actions whose answers are known, and the same. -/
theorem of_runOns {r : Except Error α} (ha : a.runOn s = some (r, t)) (hb : b.runOn s = some (r, t))
    (ht : t.Consistent c) (hwidens : s.Widens t) (hq : Q r t) : ClosesAt c x a b s Q := by
  intro r' t' hrun
  cases ha.symm.trans hrun
  exact ⟨ht, hwidens, hq, .inl hb⟩

/-- An action that performs nothing. -/
theorem of_runOn {r : Except Error α} (hrun : a.runOn s = some (r, t)) (ht : t.Consistent c)
    (hwidens : s.Widens t) (hq : Q r t) : ClosesAt c x a a s Q :=
  .of_runOns hrun hrun ht hwidens hq

/-- An inert action keeps the session in order, and is its own copy. -/
theorem inert (hs : s.Consistent c) (ha : Inert a) (hq : ∀ r t, a.runOn s = some (r, t) → Q r t) :
    ClosesAt c x a a s Q := by
  intro r t hrun
  obtain ⟨houtline, hwatches⟩ := ha s r t hrun
  exact ⟨hs.congr houtline hwatches, hs.widens houtline hwatches, hq r t hrun, .inl hrun⟩

/-- The second action starts where the first one ended. -/
theorem bind (h : ClosesAt c x a b s P)
    (hok : ∀ y t, a.runOn s = some (.ok y, t) → t.Consistent c → s.Widens t → P (.ok y) t →
      ClosesAt c x (f y) (g y) t R)
    (herror : ∀ e t, P (.error e) t → R (.error e) t) :
    ClosesAt c x (a >>= f) (b >>= g) s R := by
  intro r u hrun
  rcases parts_of_runOn_bind hrun with ⟨y, t, hfirst, hsecond⟩ | ⟨e, hfirst, rfl⟩
  · obtain ⟨ht, hwidens, hp, hcopy⟩ := h _ _ hfirst
    obtain ⟨hu, hwidens', hr, hcopy'⟩ := hok y t hfirst ht hwidens hp r u hsecond
    refine ⟨hu, hwidens.trans hwidens', hr, ?_⟩
    rcases hcopy with hcopy | hcovered
    · rw [runOn_bind_ok hcopy]
      exact hcopy'
    · exact .inr (hcovered.widen hwidens')
  · obtain ⟨ht, hwidens, hp, hcopy⟩ := h _ _ hfirst
    refine ⟨ht, hwidens, herror e u hp, hcopy.imp (fun hcopy => ?_) id⟩
    rw [runOn_bind, hcopy]

/-- A first part that only looks at the session. -/
theorem next {d : Action α} {y : α} (hrun : d.runOn s = some (.ok y, s))
    (h : ClosesAt c x (f y) (g y) s R) : ClosesAt c x (d >>= f) (d >>= g) s R := by
  intro r t
  rw [runOn_bind_ok hrun, runOn_bind_ok hrun]
  exact h r t

/-- An attempt covers the node where the action does. -/
theorem attempt {R : Except Error (Except Error α) → Session → Prop}
    (h : ClosesAt c x a b s fun r t => R (.ok r) t) :
    ClosesAt c x (Action.attempt a) (Action.attempt b) s R := by
  intro r t hrun
  obtain ⟨r', rfl, hrun'⟩ := runOn_of_attempt hrun
  obtain ⟨ht, hwidens, hr, hcopy⟩ := h r' t hrun'
  refine ⟨ht, hwidens, hr, hcopy.imp (fun hcopy => ?_) id⟩
  rw [runOn_attempt, hcopy, Option.map_some]

/-- The second part is as it should be wherever it starts. -/
theorem andThen (h : ClosesAt c x a b s P) (k : ∀ y, Closes c x (f y) (g y)) :
    ClosesAt c x (a >>= f) (b >>= g) s fun _ _ => True :=
  h.bind (fun y t _ ht _ _ => k y t ht) fun _ _ _ => trivial

/-- What comes of the action is ignored. -/
theorem ignore {I : Session → Prop} (h : ClosesAt c x a b s fun _ t => I t) :
    ClosesAt c x (Action.ignore a) (Action.ignore b) s fun r t => r = .ok () ∧ I t := by
  refine bind (P := fun r t => (∃ r', r = .ok r') ∧ I t)
    (attempt (h.mono fun r _ _ ht => ⟨⟨r, rfl⟩, ht⟩)) ?_ ?_
  · intro _ t _ ht _ hI
    exact of_runOn (runOn_pure _ t) ht (.refl t) ⟨rfl, hI.2⟩
  · rintro e t ⟨⟨r', heq⟩, -⟩
    cases heq

/-- A first part that checks something. -/
theorem check {r : Except Error α} (hs : s.Consistent c)
    (h : ∀ y, r = .ok y → ClosesAt c x (f y) (g y) s R) (herror : ∀ e, R (.error e) s) :
    ClosesAt c x (Action.ofResult r >>= f) (Action.ofResult r >>= g) s R := by
  cases r with
  | ok y => exact .next (runOn_ofResult _ s) (h y rfl)
  | error e =>
    have hrun : ∀ f : α → Action β, (Action.ofResult (.error e) >>= f).runOn s
        = some (.error e, s) := fun f => by rw [runOn_bind, runOn_ofResult]
    exact .of_runOns (hrun f) (hrun g) hs (.refl s) (herror e)

/-- Two actions that go on as two others do on another session. -/
theorem shift (ha : a.runOn s = a'.runOn t) (hb : b.runOn s = b'.runOn t)
    (h : ClosesAt c x a' b' t P)
    (k : ∀ r u, t.Widens u → P r u → s.Widens u ∧ Q r u) : ClosesAt c x a b s Q := by
  intro r u hrun
  rw [ha] at hrun
  rw [hb]
  obtain ⟨hu, hwidens, hp, hcopy⟩ := h r u hrun
  obtain ⟨hwidens', hq⟩ := k r u hwidens hp
  exact ⟨hu, hwidens', hq, hcopy⟩

end ClosesAt

/-- **Closing goes through actions.** -/
theorem closes_congruence (c : Catalog) (x : Node) : Congruence fun _ a b => Closes c x a b where
  inert ha := fun _ hs => .inert hs ha fun _ _ _ => trivial
  bind h k := fun s hs => (h s hs).andThen k
  attempt h := fun s hs => .attempt (h s hs)

end Action

open LazyFields.Action (ClosesAt Closes)

/-- What is asked of two performers: whatever others perform within themselves
closes, and registering a field covers it. -/
structure Performer.Closes (c : Catalog) (x : Node) (call call' : Performer) : Prop where
  inner : ∀ op : Operation, op.IsInner → Action.Closes c x (call op) (call' op)
  register : ∀ {s : Session} {n : Nat} {field : String}, s.Consistent c →
    ClosesAt c x (call (.register n field)) (call' (.register n field)) s fun r t =>
      t.Covered (n, field) ∧ ∀ spec, s.Declares n field spec → r = .ok ()

namespace Session

variable {c : Catalog} {s t : Session} {x y : Node} {m m' : Member} {spec : FieldSpec}
  {n : Nat} {field reference : String}

/-! ## §4. References. -/

/-- A published field under the address of the target is a field of its
instance, or of another one of its kind and id. -/
def Target.Twins (target : Target) (s : Session) : Prop :=
  ∀ y m spec, s.Publishes y m spec → m.address y.2 = target.address →
    ∃ source m', target.inst = some source ∧ s.outline.member? source = some m'
      ∧ m'.kind = m.kind ∧ m'.id = m.id ∧ target.field = y.2

/-- The catalog knows the fields of every instance. -/
theorem Consistent.catalog_field? (hs : s.Consistent c) (hm : s.outline.member? n = some m) :
    c.field? (m.kind.name, field) = m.kind.info.field? field :=
  Catalog.field?_of_kind (hs.kind hm)

/-- **What a field is called tells which one it is,** up to instances of one
kind and id. -/
theorem Consistent.address_inj (hs : s.Consistent c) (hlawful : c.Lawful)
    (hy : s.Publishes y m spec) {k : Kind} (hk : c.kinds.get? k.name = some k) {id : String}
    (hfield : '\x00' ∉ field.toList) (h : m.address y.2 = fieldAddress k.name id field) :
    m.kind = k ∧ m.id = id ∧ y.2 = field := by
  have hspec : c.field? (m.kind.name, y.2) = some spec :=
    (hs.catalog_field? hy.member).trans hy.field
  have hkind := hs.kind hy.member
  obtain ⟨hname, hid, hsame⟩ := fieldAddress_inj (hlawful.isKindName hkind).2
    (hlawful.isKindName hk).2 (hlawful.isFieldName hspec).2 hfield h
  rw [hname, hk] at hkind
  exact ⟨(Option.some.inj hkind).symm, hid, hsame⟩

/-- A field of an instance as a target. -/
theorem twins_own (hlawful : c.Lawful) (hs : s.Consistent c) (hm : s.outline.member? n = some m)
    (hfield : '\x00' ∉ field.toList) : Target.Twins ⟨some n, field, m.address field⟩ s := by
  intro y m' spec hy haddress
  obtain ⟨hkind, hid, hsame⟩ := hs.address_inj hlawful hy (hs.kind hm) hfield haddress
  exact ⟨n, m, rfl, hm, hkind.symm, hid.symm, hsame.symm⟩

/-- What a reference points to, with the name in the watch graph. -/
theorem twins_target (hlawful : c.Lawful) (hs : s.Consistent c)
    (hm : s.outline.member? n = some m) (hspec : m.kind.info.field? field = some spec)
    (href : reference ∈ spec.refs) :
    Target.Twins ⟨(s.outline.target n reference).map Prod.fst,
      (referent m.kind.name reference).2, m.targetAddress reference⟩ s := by
  obtain ⟨spec', hknown⟩ := hlawful.known ((hs.catalog_field? hm).trans hspec) href
  have hname := (hlawful.isFieldName hknown).2
  obtain ⟨k, hk, -⟩ := Option.bind_eq_some_iff.1 hknown
  unfold Outline.target Member.targetAddress
  unfold referent at hname hk ⊢
  rcases hsplit : splitReference reference with ⟨_ | kind, target⟩
  · simp only [hsplit] at hname ⊢
    exact twins_own hlawful hs hm hname
  · -- a field of a shared instance, which is published if the field is
    simp only [hsplit] at hname hk ⊢
    intro y m' spec hy haddress
    have hkind := hlawful.name hk
    obtain ⟨rfl, hid, hsame⟩ := hs.address_inj hlawful hy (hkind ▸ hk) hname (hkind ▸ haddress)
    obtain ⟨address, hpublished⟩ := hy.published
    obtain ⟨m₂, hm₂, -, -, hkey⟩ := hs.keyed hpublished
    obtain rfl : m' = m₂ := Option.some.inj (hy.member.symm.trans hm₂)
    rw [hid, hkind] at hkey
    subst hkey
    have hshared : s.outline.published.get? (instanceAddress kind "") = some y.1 := hpublished
    exact ⟨y.1, m', by simp [hshared], hm₂, rfl, rfl, hsame.symm⟩

/-- If its instance is there, what a reference points to is declared. -/
theorem declares_target (hlawful : c.Lawful) (hs : s.Consistent c)
    (hm : s.outline.member? n = some m) (hspec : m.kind.info.field? field = some spec)
    (href : reference ∈ spec.refs) {source : Nat}
    (h : (s.outline.target n reference).map Prod.fst = some source) :
    ∃ spec', s.Declares source (referent m.kind.name reference).2 spec' := by
  obtain ⟨spec', hknown⟩ := hlawful.known ((hs.catalog_field? hm).trans hspec) href
  unfold Outline.target at h
  unfold referent at hknown ⊢
  rcases hsplit : splitReference reference with ⟨_ | kind, target⟩
  · simp only [hsplit, Option.map_some, Option.some.injEq] at hknown h ⊢
    subst h
    obtain ⟨i, hi, rfl⟩ := instance_of_member? (s := s) hm
    exact ⟨spec', i, hi, (hs.catalog_field? hm).symm.trans hknown⟩
  · simp only [hsplit, Option.map_map] at hknown h ⊢
    obtain ⟨shared, hshared, rfl⟩ := Option.map_eq_some_iff.1 h
    obtain ⟨m', hm', -, -, haddress⟩ := hs.keyed hshared
    obtain ⟨k, hk, -⟩ := Option.bind_eq_some_iff.1 hknown
    obtain ⟨hname, -⟩ := instanceAddress_inj (hlawful.isKindName (hs.kind hm')).2
      (hlawful.isKindName hk).2 haddress
    obtain ⟨i, hi, rfl⟩ := instance_of_member? (s := s) hm'
    refine ⟨spec', i, hi, (hs.catalog_field? hm').symm.trans ?_⟩
    have hname : i.member.kind.name = kind := hname
    rw [hname]
    exact hknown

/-! ## §5. Registering. -/

section Register

variable {x : Node} {call call' : Performer}

/-- Following a target is a watch, and for the first watcher the target is
registered and computed. -/
theorem runOn_follow {i : Instance} (hi : s.instance? n = some i) (call : Performer)
    (target : Target) : (follow call target n field).runOn s
      = (if (s.watches.callbacks target.address).isEmpty then
          match target.inst with
          | none => pure ()
          | some source => do
              call (.register source target.field)
              Action.ignore (call (.compute source target.field))
        else pure () : Action Unit).runOn
          (s.watching target.address (i.fieldAddress field) (.recompute n field)) := by
  simp only [follow, Action.runOn_bind, runOn_getInstance hi, runOn_get, runOn_set,
    WatchGraph.watch, watching]
  by_cases hempty : (s.watches.callbacks target.address).isEmpty = true
  · have hnew : (s.watches.callbacks target.address).contains (i.fieldAddress field) = false := by
      rw [Table.contains, Table.isEmpty_iff.1 hempty]
      rfl
    cases target.inst <;>
      simp only [hempty, hnew, Bool.not_true, Bool.or_self, Bool.false_eq_true, if_false, if_true]
  · simp only [hempty, Bool.not_false, Bool.or_true, if_true, Bool.false_eq_true, if_false]

/-- To follow a target enters the watch, and succeeds if the target is declared. -/
theorem closesAt_follow (hcall : call.Closes c x call') (hs : s.Consistent c)
    (hm : s.outline.member? n = some m) {target : Target} (htwins : target.Twins s) :
    ClosesAt c x (follow call target n field) (follow call' target n field) s fun r t =>
      t.watches.Lists target.address (m.address field)
        ∧ ((∀ source, target.inst = some source → ∃ spec, s.Declares source target.field spec) →
          r = .ok ()) := by
  obtain ⟨i, hi, rfl⟩ := instance_of_member? (s := s) hm
  let t := s.watching target.address (i.fieldAddress field) (.recompute n field)
  have ht : t.Consistent c := hs.watching
  have hlists : t.watches.Lists target.address (i.fieldAddress field) :=
    WatchGraph.lists_watch.2 (.inl ⟨rfl, rfl⟩)
  -- what is left after the watch has to cover the target if nobody watched it
  refine ClosesAt.shift (P := fun r u =>
    ((s.watches.callbacks target.address).isEmpty = true → ∀ source, target.inst = some source →
        u.Covered (source, target.field))
      ∧ ((∀ source, target.inst = some source → ∃ spec, s.Declares source target.field spec) →
        r = .ok ())) (runOn_follow hi call target) (runOn_follow hi call' target) ?_ ?_
  · split
    · split
      · next hnone =>
        refine .of_runOn (Action.runOn_pure () t) ht (.refl t) ⟨?_, fun _ => rfl⟩
        intro _ source hsource
        simp [hnone] at hsource
      · next source hsource =>
        refine (hcall.register ht).bind (R := fun r u => _ ∧ _) ?_ ?_
        · intro _ u _ hu _ hregistered
          refine (ClosesAt.ignore (hcall.inner (.compute source target.field) trivial u hu)).mono ?_
          rintro r w hwidens ⟨rfl, -⟩
          refine ⟨?_, fun _ => rfl⟩
          intro _ source' hsource'
          cases hsource.symm.trans hsource'
          exact hregistered.1.widen hwidens
        · rintro e u ⟨hcovered, hok⟩
          refine ⟨?_, fun hdeclared => ?_⟩
          · intro _ source' hsource'
            cases hsource.symm.trans hsource'
            exact hcovered
          · obtain ⟨spec, hspec⟩ := hdeclared source hsource
            exact hok spec hspec
    · next hold =>
      exact .of_runOn (Action.runOn_pure () t) ht (.refl t)
        ⟨fun hempty => absurd hempty hold, fun _ => rfl⟩
  · rintro r u hwidens ⟨hcovered, hok⟩
    refine ⟨hwidens.of_watching ?_, hwidens.lists hlists, hok⟩
    intro y m' spec hempty hy haddress
    obtain ⟨source, m₂, hsource, hm₂, hkind, hid, hfield⟩ := htwins y m' spec hy haddress
    exact (hcovered hempty source hsource).twin (hwidens.evolves.member hm₂)
      (hwidens.evolves.member hy.member) hkind hid hfield

/-- A field watches one of its references. -/
def followReference (call : Performer) (n : Nat) (field reference : String) : Action Unit := do
  let target ← targetOf n reference
  follow call target n field

/-- To follow a reference succeeds, and the field watches its target from then on. -/
theorem closesAt_followReference (hcall : call.Closes c x call') (hlawful : c.Lawful)
    (hs : s.Consistent c) (hm : s.outline.member? n = some m)
    (hspec : m.kind.info.field? field = some spec) (href : reference ∈ spec.refs) :
    ClosesAt c x (followReference call n field reference) (followReference call' n field reference)
      s fun r t => r = .ok () ∧ t.watches.Lists (m.targetAddress reference) (m.address field) := by
  have htarget := runOn_targetOf_of_member (x := (n, field)) (hs.catalog ▸ hlawful) hs.live hm
    (hs.catalog ▸ hs.kind hm) hspec href
  have htwins := twins_target hlawful hs hm hspec href
  refine .next htarget ((closesAt_follow hcall hs hm htwins).mono ?_)
  rintro r t - ⟨hlists, hok⟩
  -- what a reference points to is declared, so its registration succeeds
  exact ⟨hok fun source hsource => declares_target hlawful hs hm hspec href hsource, hlists⟩

/-- The loop of a registration: one reference after the other is watched. -/
theorem closesAt_references (hcall : call.Closes c x call') (hlawful : c.Lawful)
    (hspec : m.kind.info.field? field = some spec) {refs : List String} :
    (∀ reference ∈ refs, reference ∈ spec.refs) → ∀ s : Session, s.Consistent c →
      s.outline.member? n = some m →
      ClosesAt c x (refs.forM (followReference call n field))
        (refs.forM (followReference call' n field)) s fun r t =>
        r = .ok () ∧ ∀ reference ∈ refs,
          t.watches.Lists (m.targetAddress reference) (m.address field) := by
  induction refs with
  | nil =>
    intro _ s hs _
    show ClosesAt c x (pure ()) (pure ()) s _
    exact .of_runOn (Action.runOn_pure () s) hs (.refl s) ⟨rfl, by simp⟩
  | cons reference refs ih =>
    intro hrefs s hs hm
    have href := hrefs reference List.mem_cons_self
    show ClosesAt c x
      (followReference call n field reference >>= fun _ => refs.forM (followReference call n field))
      (followReference call' n field reference >>= fun _ =>
        refs.forM (followReference call' n field)) s _
    refine (closesAt_followReference hcall hlawful hs hm hspec href).bind ?_ ?_
    · -- the watch is still there when the others are made
      rintro _ t - ht hwidens ⟨-, hlists⟩
      refine (ih (fun r hr => hrefs r (List.mem_cons_of_mem _ hr)) t ht
        (hwidens.evolves.member hm)).mono ?_
      rintro r u hwidens' ⟨hok, hrest⟩
      exact ⟨hok, List.forall_mem_cons.2 ⟨hwidens'.lists hlists, hrest⟩⟩
    · rintro e t ⟨herror, -⟩
      cases herror

/-- **Registering a field covers it,** and succeeds if the field is declared. -/
theorem closesAt_register (hcall : call.Closes c x call') (hlawful : c.Lawful)
    (hs : s.Consistent c) (n : Nat) (field : String) :
    ClosesAt c x (register call n field) (register call' n field) s fun r t =>
      t.Covered (n, field) ∧ ∀ spec, s.Declares n field spec → r = .ok () := by
  cases hi : s.instance? n with
  | none =>
    intro r t hrun
    simp [register, declared, Action.runOn_bind, runOn_getInstance_of_none hi] at hrun
  | some i =>
    have hm : s.outline.member? n = some i.member := member?_of_instance hi
    cases hspec : i.kind.info.field? field with
    | none =>
      -- what is not declared refers to nothing
      have hrun : ∀ call, (register call n field).runOn s
          = some (.error (.unknownField i.kind.name field), s) := by
        intro call
        rw [register, Action.runOn_bind, runOn_declared_of_none hi hspec]
      refine .of_runOns (hrun call) (hrun call') hs (.refl s) ⟨⟨i.member, hm, ?_⟩, ?_⟩
      · intro spec hspec'
        cases hspec.symm.trans hspec'
      · rintro spec ⟨j, hj, hspec'⟩
        cases hi.symm.trans hj
        cases hspec.symm.trans hspec'
    | some spec =>
      refine .next (runOn_declared hi hspec) ?_
      split
      · next hnone =>
        refine .of_runOn (Action.runOn_pure () s) hs (.refl s) ⟨⟨i.member, hm, ?_⟩, fun _ _ => rfl⟩
        intro spec' hspec' reference href
        cases hspec.symm.trans hspec'
        simp [List.isEmpty_iff.1 hnone] at href
      · refine .next (runOn_requireLive hi hs.live) ?_
        refine (closesAt_references hcall hlawful hspec (fun _ href => href) s hs hm).mono ?_
        rintro r t hwidens ⟨hok, hlists⟩
        refine ⟨⟨i.member, hwidens.evolves.member hm, ?_⟩, fun _ _ => hok⟩
        intro spec' hspec' reference href
        cases hspec.symm.trans hspec'
        exact hlists reference href

end Register

end Session

end LazyFields
