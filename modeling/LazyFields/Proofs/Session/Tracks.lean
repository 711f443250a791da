/-
  LazyFields.Proofs.Session.Tracks
  ────────────────────────────────
  **WHAT A SESSION KEEPS, ACTION BY ACTION.**

  Whatever logic does, an instance that was published under an address stays
  the one that is published there, and an instance keeps its kind and its id
  from the start of an action to its end.  In the middle of a construction
  only the first of these is true: the new instance gets its id in between,
  while nobody can find it.

    · `Outline.Evolves` — what one action does to the instances, from its
      start to its end
    · `Outline.Precedes` — what is kept between any two moments
    · `Outline.Hosts` — an instance is under construction
    · `Action.Tracks` — all of this for two runs of an action, of which the
      second one has no answer to one operation within it; it is a congruence
-/
import LazyFields.Proofs.Session.Congruence
import LazyFields.Proofs.Session.WellTyped

namespace LazyFields

/-! ## §1. Outlines over time. -/

namespace Outline

/-- What is published under an address is there, was not discarded, and has
the address. -/
def Keyed (o : Outline) : Prop :=
  ∀ {address n}, o.published.get? address = some n →
    ∃ m, o.member? n = some m ∧ m.discarded = false ∧ o.catalog.Has m.kind
      ∧ instanceAddress m.kind.name m.id = address

/-- Instances were added, and perhaps published, but the others are as before. -/
structure Evolves (o p : Outline) : Prop where
  catalog : p.catalog = o.catalog
  live : p.live = o.live
  member : ∀ {n m}, o.member? n = some m → p.member? n = some m
  published : ∀ {address n}, o.published.get? address = some n → p.published.get? address = some n
  fresh : ∀ {address n}, p.published.get? address = some n →
    o.published.get? address = some n ∨ o.members.length ≤ n

/-- What was published stays published, under addresses that are true. -/
structure Precedes (o p : Outline) : Prop where
  keyed : p.Keyed
  catalog : p.catalog = o.catalog
  published : ∀ {address n}, o.published.get? address = some n → p.published.get? address = some n

variable {o p q : Outline} {n : Nat} {m : Member}

/-- The number of a member is below their count. -/
theorem lt_length_of_member? (h : o.member? n = some m) : n < o.members.length :=
  (List.getElem?_eq_some_iff.1 h).1

/-- Below the count of members, every number is that of one. -/
theorem member?_of_lt_length (h : n < o.members.length) : ∃ m, o.member? n = some m :=
  ⟨_, List.getElem?_eq_getElem h⟩

theorem Evolves.refl (o : Outline) : o.Evolves o := ⟨rfl, rfl, id, id, .inl⟩

/-- No member is taken away. -/
theorem Evolves.length_le (h : o.Evolves p) : o.members.length ≤ p.members.length := by
  by_contra hlt
  obtain ⟨m, hm⟩ := member?_of_lt_length (o := o) (n := p.members.length) (by omega)
  exact absurd (lt_length_of_member? (h.member hm)) (Nat.lt_irrefl _)

/-- Evolving, and evolving again. -/
theorem Evolves.trans (h : o.Evolves p) (k : p.Evolves q) : o.Evolves q where
  catalog := k.catalog.trans h.catalog
  live := k.live.trans h.live
  member hm := k.member (h.member hm)
  published hn := k.published (h.published hn)
  fresh hn := by
    rcases k.fresh hn with hold | hnew
    · exact h.fresh hold
    · exact .inr (Nat.le_trans h.length_le hnew)

/-- An outline precedes those it evolves into, if these are keyed. -/
theorem Evolves.precedes (h : o.Evolves p) (hp : p.Keyed) : o.Precedes p :=
  ⟨hp, h.catalog, h.published⟩

theorem Precedes.refl (ho : o.Keyed) : o.Precedes o := (Evolves.refl o).precedes ho

/-- Preceding, and preceding again. -/
theorem Precedes.trans (h : o.Precedes p) (k : p.Precedes q) : o.Precedes q :=
  ⟨k.keyed, k.catalog.trans h.catalog, fun hn => k.published (h.published hn)⟩

/-! ## §2. An instance under construction. -/

/-- Since the first outline an instance was added, which was not published. -/
structure Hosts (o : Outline) (n : Nat) (m : Member) (p : Outline) : Prop where
  keyed : p.Keyed
  evolves : o.Evolves p
  new : o.members.length ≤ n
  member : p.member? n = some m
  hidden : ∀ {address}, p.published.get? address ≠ some n

/-- What is published is a member. -/
theorem Keyed.lt_length (ho : o.Keyed) {address : String}
    (hn : o.published.get? address = some n) : n < o.members.length := by
  obtain ⟨m, hm, -⟩ := ho hn
  exact lt_length_of_member? hm

/-- An instance is numbered. -/
theorem Keyed.hosts (ho : o.Keyed) (m : Member) :
    o.Hosts o.members.length m { o with members := o.members ++ [m] } := by
  have hold : ∀ {k m'}, o.member? k = some m' → (o.members ++ [m])[k]? = some m' := by
    intro k m' hm
    rw [List.getElem?_append_left (lt_length_of_member? hm)]
    exact hm
  refine ⟨?_, ⟨rfl, rfl, hold, id, .inl⟩, Nat.le_refl _, List.getElem?_concat_length, ?_⟩
  · intro address n hn
    obtain ⟨m', hm, hrest⟩ := ho hn
    exact ⟨m', hold hm, hrest⟩
  · intro address hn
    exact absurd (ho.lt_length hn) (Nat.lt_irrefl _)

/-- While other instances are constructed it stays hidden. -/
theorem Hosts.evolve (h : o.Hosts n m p) (hq : q.Keyed) (k : p.Evolves q) : o.Hosts n m q := by
  refine ⟨hq, h.evolves.trans k, h.new, k.member h.member, ?_⟩
  intro address hn
  -- what others publish is newer than this instance
  rcases k.fresh hn with hold | hnew
  · exact h.hidden hold
  · have hlt := lt_length_of_member? h.member
    omega

/-- **Nobody can tell when the instance gets its id or is discarded,** since it
is not published. -/
theorem Hosts.modify (h : o.Hosts n m p) (g : Member → Member) :
    o.Hosts n (g m) { p with members := p.members.modify n g }
      ∧ p.Precedes { p with members := p.members.modify n g } := by
  have hother : ∀ {k m'}, k ≠ n → p.member? k = some m' →
      (p.members.modify n g)[k]? = some m' := by
    intro k m' hk hm
    have hm : p.members[k]? = some m' := hm
    simp [Ne.symm hk, hm]
  have hkeyed : ({ p with members := p.members.modify n g } : Outline).Keyed := by
    intro address k hk
    obtain ⟨m', hm, hrest⟩ := h.keyed hk
    -- the host is not published, so no address leads to it
    have hne : k ≠ n := by
      intro heq
      subst heq
      exact h.hidden hk
    exact ⟨m', hother hne hm, hrest⟩
  refine ⟨⟨hkeyed, ⟨h.evolves.catalog, h.evolves.live, ?_, h.evolves.published, h.evolves.fresh⟩,
    h.new, ?_, h.hidden⟩, hkeyed, rfl, id⟩
  · intro k m' hm
    have hlt := lt_length_of_member? hm
    have hnew := h.new
    exact hother (by omega) (h.evolves.member hm)
  · have hm : p.members[n]? = some m := h.member
    show (p.members.modify n g)[n]? = some (g m)
    simp [hm]

/-- It is published under its own address, if that is free. -/
theorem Hosts.publish (h : o.Hosts n m p) (hkept : m.discarded = false) (hk : p.catalog.Has m.kind)
    {address : String} (haddress : instanceAddress m.kind.name m.id = address)
    (hfree : p.published.get? address = none) :
    o.Evolves { p with published := p.published.insert address n }
      ∧ p.Precedes { p with published := p.published.insert address n } := by
  have hstays : ∀ {other k}, p.published.get? other = some k →
      (p.published.insert address n).get? other = some k := by
    intro other k hother
    -- the address is free, so nothing stands under it
    have hne : address ≠ other := by
      intro heq
      subst heq
      simp [hfree] at hother
    rw [Table.get?_insert_ne _ hne]
    exact hother
  refine ⟨⟨h.evolves.catalog, h.evolves.live, h.evolves.member,
    fun hn => hstays (h.evolves.published hn), ?_⟩, ?_, rfl, hstays⟩
  · intro other k hother
    rw [Table.get?_insert] at hother
    split at hother
    · cases hother
      exact .inr h.new
    · exact h.evolves.fresh hother
  · intro other k hother
    rw [Table.get?_insert] at hother
    split at hother
    · next heq =>
      subst heq
      cases hother
      exact ⟨m, h.member, hkept, hk, haddress⟩
    · exact h.keyed hother

end Outline

/-! ## §3. Two runs of an action. -/

namespace Action

variable {α β : Type} {before after : Session}

/-- Whatever the first action answers on a session, it keeps what was published,
and `Q` holds of what it leaves.  The second action answers the same; or else
the first one passes through the sessions `before` and `after`. -/
def TracksAt (before after : Session) (a b : Action α) (s : Session)
    (Q : Except Error α → Session → Prop) : Prop :=
  (∀ r t, a.runOn s = some (r, t) → s.outline.Precedes t.outline ∧ Q r t)
    ∧ (b.runOn s = a.runOn s ∨ s.outline.Precedes before.outline
      ∧ ∀ r t, a.runOn s = some (r, t) → after.outline.Precedes t.outline)

/-- From any session whose addresses are true the instances evolve. -/
def Tracks (before after : Session) (a b : Action α) : Prop :=
  ∀ s : Session, s.outline.Keyed →
    TracksAt before after a b s fun _ t => s.outline.Evolves t.outline

variable {a b : Action α} {f g : α → Action β} {s t : Session}
  {P Q : Except Error α → Session → Prop} {R : Except Error β → Session → Prop}

/-- Less may be said of the end. -/
theorem TracksAt.mono (h : TracksAt before after a b s P) (k : ∀ r t, P r t → Q r t) :
    TracksAt before after a b s Q :=
  ⟨fun r t hrun => ⟨(h.1 r t hrun).1, k r t (h.1 r t hrun).2⟩, h.2⟩

/-- An action that performs nothing. -/
theorem TracksAt.of_runOn {r : Except Error α} (hrun : a.runOn s = some (r, t))
    (hprecedes : s.outline.Precedes t.outline) (hq : Q r t) : TracksAt before after a a s Q := by
  refine ⟨?_, .inl rfl⟩
  intro r' t' hrun'
  rw [hrun] at hrun'
  cases hrun'
  exact ⟨hprecedes, hq⟩

/-- The second part starts where the first one ended. -/
theorem TracksAt.bind (h : TracksAt before after a b s P)
    (hok : ∀ x t, a.runOn s = some (.ok x, t) → t.outline.Keyed → P (.ok x) t →
      TracksAt before after (f x) (g x) t R)
    (herror : ∀ e t, P (.error e) t → R (.error e) t) :
    TracksAt before after (a >>= f) (b >>= g) s R := by
  have hrest : ∀ {x t}, a.runOn s = some (.ok x, t) →
      s.outline.Precedes t.outline ∧ TracksAt before after (f x) (g x) t R := by
    intro x t hfirst
    obtain ⟨hprecedes, hp⟩ := h.1 _ _ hfirst
    exact ⟨hprecedes, hok x t hfirst hprecedes.keyed hp⟩
  refine ⟨?_, ?_⟩
  · intro r u hrun
    rcases parts_of_runOn_bind hrun with ⟨x, t, hfirst, hsecond⟩ | ⟨e, hfirst, rfl⟩
    · obtain ⟨hprecedes, hnext⟩ := hrest hfirst
      obtain ⟨hprecedes', hr⟩ := hnext.1 r u hsecond
      exact ⟨hprecedes.trans hprecedes', hr⟩
    · obtain ⟨hprecedes, hp⟩ := h.1 _ _ hfirst
      exact ⟨hprecedes, herror e u hp⟩
  · rcases h.2 with hsame | ⟨hbefore, hafter⟩
    · -- the first parts agree, so what matters is the second one, if it is reached
      cases hfirst : a.runOn s with
      | none =>
        refine .inl ?_
        rw [runOn_bind, runOn_bind, hsame, hfirst]
      | some p =>
        obtain ⟨e | x, t⟩ := p
        · refine .inl ?_
          rw [runOn_bind, runOn_bind, hsame, hfirst]
        · obtain ⟨hprecedes, -, hnext⟩ := hrest hfirst
          rw [runOn_bind_ok hfirst, runOn_bind_ok (hsame.trans hfirst)]
          exact hnext.imp_right fun hpass => ⟨hprecedes.trans hpass.1, hpass.2⟩
    · -- both sessions are passed in the first part, and the second one comes after it
      refine .inr ⟨hbefore, ?_⟩
      intro r u hrun
      rcases parts_of_runOn_bind hrun with ⟨x, t, hfirst, hsecond⟩ | ⟨e, hfirst, -⟩
      · exact (hafter _ _ hfirst).trans ((hrest hfirst).2.1 r u hsecond).1
      · exact hafter _ _ hfirst

/-- A first part that performs nothing and succeeds. -/
theorem TracksAt.next {c : Action α} {x : α} (hrun : c.runOn s = some (.ok x, t))
    (hprecedes : s.outline.Precedes t.outline) (h : TracksAt before after (f x) (g x) t R) :
    TracksAt before after (c >>= f) (c >>= g) s R := by
  refine TracksAt.bind (P := fun r u => r = .ok x ∧ u = t)
    (.of_runOn hrun hprecedes ⟨rfl, rfl⟩) ?_ ?_
  · rintro y u - - ⟨heq, rfl⟩
    cases heq
    exact h
  · rintro e u ⟨heq, -⟩
    cases heq

/-- A first part that checks something. -/
theorem TracksAt.check {r : Except Error α} (hs : s.outline.Keyed)
    (h : ∀ x, r = .ok x → TracksAt before after (f x) (g x) s R) (herror : ∀ e, R (.error e) s) :
    TracksAt before after (Action.ofResult r >>= f) (Action.ofResult r >>= g) s R := by
  refine TracksAt.bind (P := fun r' u => r' = r ∧ u = s)
    (.of_runOn (runOn_ofResult r s) (.refl hs) ⟨rfl, rfl⟩) ?_ ?_
  · rintro x _ - - ⟨hr, rfl⟩
    exact h x hr.symm
  · rintro e _ ⟨-, rfl⟩
    exact herror e

/-- An attempt is tracked where the action is. -/
theorem TracksAt.attempt {R : Except Error (Except Error α) → Session → Prop}
    (h : TracksAt before after a b s fun r t => R (.ok r) t) :
    TracksAt before after (Action.attempt a) (Action.attempt b) s R := by
  refine ⟨?_, ?_⟩
  · intro r t hrun
    obtain ⟨r', rfl, hrun'⟩ := runOn_of_attempt hrun
    exact h.1 r' t hrun'
  · rcases h.2 with hsame | ⟨hbefore, hafter⟩
    · refine .inl ?_
      rw [runOn_attempt, runOn_attempt, hsame]
    · refine .inr ⟨hbefore, ?_⟩
      intro r t hrun
      obtain ⟨r', -, hrun'⟩ := runOn_of_attempt hrun
      exact hafter r' t hrun'

/-- The second part is tracked wherever it starts. -/
theorem TracksAt.andThen (h : TracksAt before after a b s fun _ t => s.outline.Evolves t.outline)
    (k : ∀ x, Tracks before after (f x) (g x)) :
    TracksAt before after (a >>= f) (b >>= g) s fun _ t => s.outline.Evolves t.outline := by
  refine h.bind ?_ fun e t ht => ht
  intro x t _ hkeyed hevolves
  exact (k x t hkeyed).mono fun _ _ hnext => hevolves.trans hnext

/-- An action that leaves the outline as it is. -/
theorem TracksAt.of_outline (hs : s.outline.Keyed)
    (h : ∀ r t, a.runOn s = some (r, t) → t.outline = s.outline) :
    TracksAt before after a a s fun _ t => s.outline.Evolves t.outline := by
  refine ⟨?_, .inl rfl⟩
  intro r t hrun
  have hsame := h r t hrun
  have hevolves : s.outline.Evolves t.outline := hsame ▸ .refl s.outline
  have hkeyed : t.outline.Keyed := hsame ▸ hs
  exact ⟨hevolves.precedes hkeyed, hevolves⟩

namespace Tracks

/-- Tracked actions one after the other are tracked. -/
theorem bind (h : Tracks before after a b) (k : ∀ x, Tracks before after (f x) (g x)) :
    Tracks before after (a >>= f) (b >>= g) :=
  fun s hs => (h s hs).andThen k

/-- An attempt is tracked if the action is. -/
theorem attempt (h : Tracks before after a b) :
    Tracks before after (Action.attempt a) (Action.attempt b) :=
  fun s hs => (h s hs).attempt

/-- An action that keeps the outline is tracked. -/
theorem of_outline (h : ∀ s r t, a.runOn s = some (r, t) → t.outline = s.outline) :
    Tracks before after a a :=
  fun s hs => .of_outline hs (h s)

/-- An action that changes caches at most. -/
theorem inert (h : Inert a) : Tracks before after a a :=
  of_outline fun s r t hrun => (h s r t hrun).1

/-- **Tracking goes through actions.** -/
theorem congruence (before after : Session) :
    Congruence fun _ a b => Tracks before after a b where
  inert := inert
  bind := bind
  attempt := attempt

/-- Looking at the session, and going on from there. -/
theorem get_bind {f g : Session → Action β}
    (h : ∀ s : Session, s.outline.Keyed →
      TracksAt before after (f s) (g s) s fun _ t => s.outline.Evolves t.outline) :
    Tracks before after ((MonadState.get : Action Session) >>= f) (MonadState.get >>= g) :=
  fun s hs => .next Session.runOn_get (.refl hs) (h s hs)

end Tracks

end Action

open LazyFields.Action (Tracks TracksAt)

/-- Whatever is performed, the second performer answers the same, or the first
one passes through both sessions. -/
def Performer.Tracks (before after : Session) (call call' : Performer) : Prop :=
  ∀ op, Action.Tracks before after (call op) (call' op)

namespace Session

variable {before after s : Session}

/-- Setting the session is tracked if the outline stays. -/
theorem tracksAt_set (hs : s.outline.Keyed) {t : Session} (h : t.outline = s.outline) :
    TracksAt before after (set t : Action PUnit) (set t) s
      fun _ t => s.outline.Evolves t.outline := by
  refine .of_outline hs ?_
  intro r t' hrun
  cases hrun
  exact h

end Session

end LazyFields
