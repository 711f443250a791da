/-
  LazyFields.Proofs.Session.Memoization
  ────────────────────────────────
  **MEMOIZED EVALUATION IS PLAIN EVALUATION.**

  Over an accepted schema and pure logic, resolving a field gives what plain
  recursion makes of the constructor arguments, whatever was created, computed,
  triggered, watched or forgotten before (`resolve_eq_evaluate`).

  The invariant is `Coherent`: whatever the cache holds for a field is its
  evaluation.  Evaluation may change when instances are created, but only from
  "not ready", which is never stored; so no entry goes stale.  The invariant
  knows nothing of pending tasks, so it is a `Protocol` at once.
-/
import LazyFields.Proofs.Catalog.Bound
import LazyFields.Proofs.Session.Forget
import LazyFields.Proofs.Session.OnField

namespace LazyFields

/-! ## §1. The invariant. -/

/-- What the constructors were given, as outcomes of fields. -/
def constants (given : Nat → Args) (x : Node) : Option Outcome :=
  ((given x.1).get? x.2).map .ok

/-- Whatever is settled is the evaluation of its field. -/
structure Coherent (c : Catalog) (given : Nat → Args) (v : View) : Prop where
  regular : v.Regular
  catalog : v.outline.catalog = c
  memo : ∀ {x r}, v.outline.Has x → v.result? x = some r →
    r = v.outline.evaluate (constants given) x
  /-- Computed fields are given nothing. -/
  static : ∀ {x m spec w}, v.outline.Declares x m spec → (given x.1).get? x.2 = some w →
    spec.isStatic = true

namespace Coherent

variable {c : Catalog} {given given' : Nat → Args} {v w : View} {x : Node}

theorem known (h : Coherent c given v) (hx : v.Computes x) : constants given x = none := by
  obtain ⟨m, spec, hx, hcomputed⟩ := hx
  cases hgiven : (given x.1).get? x.2 with
  | none => simp [constants, hgiven]
  | some w => simp [h.static hx hgiven] at hcomputed

/-- What the evaluations of the references yield is the evaluation. -/
theorem evaluate_of_yields (h : Coherent c given v) (hpure : c.ComputesPurely)
    (hx : v.Computes x) {r : Outcome}
    (hr : v.outline.Yields (fun y r => r = v.outline.evaluate (constants given) y) x r) :
    r = v.outline.evaluate (constants given) x := by
  have hhas := hx.has
  have hknown := h.known hx
  obtain ⟨m, spec, hx, hcomputed⟩ := hx
  rw [h.regular.sound.evaluate_eq _ hhas, hknown, Option.getD_none]
  exact hr.eq_valueOf h.regular.sound (by rw [h.catalog]; exact hpure) hx hcomputed

/-- Only the arguments of instances that are there matter. -/
theorem congr (h : Coherent c given v)
    (hgiven : ∀ n m, v.outline.member? n = some m → given' n = given n) :
    Coherent c given' v where
  regular := h.regular
  catalog := h.catalog
  memo {x r} hx hr := by
    rw [h.memo hx hr]
    refine h.regular.sound.evaluate_unique (fun y hy => ?_) hx
    obtain ⟨m, spec, hdecl⟩ := hy
    rw [h.regular.sound.evaluate_eq _ ⟨m, spec, hdecl⟩]
    simp only [constants, hgiven _ _ hdecl.member]
  static hx hw := h.static hx (by rw [← hgiven _ _ hx.member]; exact hw)

theorem fills (h : Coherent c given v)
    (k : v.Fills (fun _ => True) (fun x r => r = v.outline.evaluate (constants given) x) w) :
    Coherent c given w where
  regular := h.regular.fills k
  catalog := by rw [k.outline, h.catalog]
  memo {x r} hx hr := by
    rw [k.outline] at hx ⊢
    rcases k.slots x with hs | ⟨-, -, -, r', hset, hr'⟩
    · exact h.memo hx ((View.result?_congr hs).symm.trans hr)
    · rw [← hr']
      exact Option.some.inj (hr.symm.trans hset.result?)
  static hx := by
    rw [k.outline] at hx
    exact h.static hx

/-- The evaluation of a field is stored. -/
theorem put (h : Coherent c given v) (hx : v.Computes x)
    (hready : v.outline.evaluate (constants given) x ≠ .error .notReady) (now : Int) :
    Coherent c given (v.put x
      (some (.stored (Entry.ofOutcome (v.outline.evaluate (constants given) x) now)))) where
  regular := h.regular.put hx hready now
  catalog := h.catalog
  memo {y r} hy hr := by
    by_cases hyx : y = x
    · subst hyx
      exact Option.some.inj (hr.symm.trans (View.settled_put v y hready now).result?)
    · exact h.memo hy ((View.result?_congr (View.put_slots_ne v hyx _)).symm.trans hr)
  static := h.static

theorem watch (h : Coherent c given v) {address watcher : String} {f : FollowUp}
    (hf : f.Fits v.outline address) : Coherent c given (v.watch address watcher f) where
  regular := h.regular.watch hf
  catalog := h.catalog
  memo := h.memo
  static := h.static

theorem unwatch (h : Coherent c given v) (watcher : String) :
    Coherent c given (v.unwatch watcher) where
  regular := h.regular.unwatch watcher
  catalog := h.catalog
  memo := h.memo
  static := h.static

theorem forget (h : Coherent c given v) (k : v.Forgets w) : Coherent c given w where
  regular := h.regular.forget k
  catalog := by rw [k.outline, h.catalog]
  memo {x r} hx hr := by
    rw [k.outline] at hx ⊢
    exact h.memo hx (k.result? hr)
  static hx := by
    rw [k.outline] at hx
    exact h.static hx

/-- **A new instance changes no evaluation that is stored.** -/
theorem add (h : Coherent c given v) {m : Member} {args : Args} {now : Int}
    {published : Table Nat} (hm : v.Lists m published) (haccepts : m.kind.Accepts args)
    (hgiven : given v.next = args)
    (hstatic : ∀ f spec w, m.kind.info.field? f = some spec → args.get? f = some w →
      spec.isStatic = true) : Coherent c given (v.add m args now published) where
  regular := h.regular.add hm haccepts
  catalog := h.catalog
  memo {x r} hx hr := by
    have hregular : (v.add m args now published).Regular := h.regular.add hm haccepts
    obtain ⟨m', spec, hdecl⟩ := id hx
    rcases View.declares_add hdecl with hold | ⟨hnew, rfl, -, hfield⟩
    · -- what is stored was ready, so it is still the evaluation
      have hhas : v.outline.Has x := ⟨m', spec, hold⟩
      have hres : v.result? x = some r :=
        (View.result?_congr (View.add_slots_old hold.member)).symm.trans hr
      have heval := h.memo hhas hres
      obtain ⟨r', hset⟩ := (h.regular.slot x).resolve_left fun hnone => by
        simp [View.result?, hnone] at hres
      have hready : r ≠ .error .notReady := by
        obtain ⟨e, he, hr', hne⟩ := id hset
        obtain rfl : r' = r := Option.some.inj (hset.result?.symm.trans hres)
        exact hne
      rw [(View.grows_add hm).evaluate h.regular.sound hregular.sound (fun _ _ => rfl) hhas
        (heval ▸ hready)]
      exact heval
    · -- the new instance holds its arguments
      obtain ⟨n, f⟩ := x
      obtain rfl : n = v.next := hnew
      rw [View.result?, View.add_slots_new] at hr
      cases hw : args.get? f with
      | none => simp [hw] at hr
      | some w =>
        rw [hregular.sound.evaluate_eq _ hx]
        have hconstant : constants given (v.next, f) = some (.ok w) := by
          simp [constants, hgiven, hw]
        rw [hconstant, Option.getD_some]
        have hok : some (Except.ok w) = some r := by
          rw [← hr, hw]
          rfl
        exact (Option.some.inj hok).symm
  static {x m' spec w} hx hw := by
    rcases View.declares_add hx with hold | ⟨hnew, rfl, -, hfield⟩
    · exact h.static hold hw
    · rw [hnew, hgiven] at hw
      exact hstatic _ _ _ hfield hw

end Coherent

/-- **A computed field may be computed again**, from whatever its references
evaluate to. -/
theorem Coherent.rerun {c : Catalog} {given : Nat → Args} {v w : View} {x : Node}
    (h : Coherent c given v) (hpure : c.ComputesPurely) (hx : v.Computes x)
    (k : v.Fills (fun _ => True) (fun x r => r = v.outline.evaluate (constants given) x) w)
    {r : Outcome} (hr : v.outline.Yields (fun y r => r = v.outline.evaluate (constants given) y) x r)
    (hne : r ≠ .error .notReady) (now : Int) :
    Coherent c given (w.put x (some (.stored (Entry.ofOutcome r now)))) := by
  have hrun := h.evaluate_of_yields hpure hx hr
  rw [← k.outline] at hrun
  subst hrun
  exact (h.fills k).put (hx.congr k.outline) hne now

/-- **Coherence survives every operation that creates nothing.** -/
theorem protocol_coherent {c : Catalog} (hpure : c.ComputesPurely) (given : Nat → Args) :
    Protocol (fun _ => True) (fun v x r => r = v.outline.evaluate (constants given) x)
      (fun _ v => Coherent c given v) where
  regular h := h.regular
  closed h := ⟨fun _ _ _ _ => trivial, fun hx _ hr => h.memo hx hr,
    fun hx _ _ hr => h.evaluate_of_yields hpure hx hr⟩
  scope _ := trivial
  fire _ h := h
  fills h k := h.fills k
  report h := h
  stalls h _ _ := h
  reruns h hx hcomputed k hr hne now := h.rerun hpure ⟨_, _, hx, hcomputed⟩ k hr hne now
  enlist h _ := h
  enlisted h _ := h
  follows h _ hx href := h.watch ⟨_, _, _, hx, href, rfl⟩
  attached h _ k _ := h.fills k
  watches h hx _ := h.watch ⟨_, hx.member⟩
  sleeps h _ _ := h
  dozes h _ k _ _ := h.fills k
  wakes h _ _ k _ := h.fills k

/-! ## §2. Runs. -/

namespace Session

open LazyFields.Action

variable {c : Catalog} {config : Config} {s : Session} {given : Nat → Args}

/-- A creation gives no value to a computed field. -/
def GivesStatics (s : Session) (kind : String) (args : Args) : Prop :=
  ∀ k f spec w, s.catalog.get kind = .ok k → k.info.field? f = some spec →
    (s.constructorArgs kind args).get? f = some w → spec.isStatic = true

instance (s : Session) (kind : String) (args : Args) : Decidable (s.GivesStatics kind args) :=
  decidable_of_iff (∀ k ∈ (s.catalog.get kind).toOption, ∀ f ∈ (s.constructorArgs kind args).keys,
    ∀ spec ∈ k.info.field? f, spec.isStatic = true) <| by
    unfold GivesStatics
    constructor
    · intro h k f spec w hk hspec hw
      refine h k ?_ f (Table.contains_iff_mem_keys.1 ?_) spec hspec
      · simp [hk, Except.toOption]
      · simp [Table.contains, hw]
    · intro h k hk f hf spec hspec
      have hget : s.catalog.get kind = .ok k := by
        cases hc : s.catalog.get kind with
        | ok k' => simpa [hc, Except.toOption] using hk
        | error e => simp [hc, Except.toOption] at hk
      obtain ⟨w, hw⟩ := Option.isSome_iff_exists.1 (Table.contains_iff_mem_keys.2 hf)
      exact h k f spec w hget hspec hw

/-- What the owner of a session does that stores nothing by hand. -/
inductive Plain (s : Session) : Operation → Prop
  | create {kind : String} {args : Args} (h : s.GivesStatics kind args) : Plain s (.create kind args)
  | onField {n : Nat} {field : String} {op : Operation} (hn : s.Keeps n)
      (hop : OnField n field op) : Plain s op
  | unregister (watcher : String) : Plain s (.unregister watcher)
  | expire (age : Nat) : Plain s (.expire age)

/-- The arguments of all instances after an operation. -/
def givenAfter (s : Session) (given : Nat → Args) : Operation → Nat → Args
  | .create kind args => Function.update given s.instances.length (s.constructorArgs kind args)
  | _ => given

/-- The sessions that the owner of a new one can reach by such operations, with
the arguments that the instances were given. -/
inductive Reached (c : Catalog) (config : Config) : Session → (Nat → Args) → Prop
  | new (now : Int) : Reached c config (.new c config now) fun _ => ∅
  | wait {s : Session} {given : Nat → Args} (h : Reached c config s given) (now : Int) :
      Reached c config { s with now } given
  | perform {s t : Session} {given : Nat → Args} {op : Operation} {fuel : Nat}
      {a : Except Error op.Answer} (h : Reached c config s given) (hop : s.Plain op)
      (hrun : s.run fuel op = some (a, t)) : Reached c config t (s.givenAfter given op)

/-- A field of an instance, evaluated by plain recursion from what the
constructors were given. -/
def evaluate (s : Session) (given : Nat → Args) (x : Node) : Outcome :=
  s.outline.evaluate (constants given) x

/-! ## §3. Every operation keeps coherence. -/

/-- **What a protocol keeps survives every such operation**, if nothing is lost
when something is forgotten or an instance comes. -/
theorem plain_ends {Allows : String → Prop} {V : View → Node → Outcome → Prop}
    {J : List Task → View → Prop} (P : Protocol Allows V J) (hprepares : s.catalog.PreparesAlone)
    (hidentifies : s.catalog.IdentifiesByStatics) {op : Operation} (hop : s.Plain op)
    (h : J [] s.view) (hallowed : ∀ n field watcher, op = .watch n field watcher → Allows watcher)
    (hrecompute : ∀ {v w : View} {x m spec r}, J [] v → v.outline.Declares x m spec →
      spec.isStatic = false → v.Fills (fun _ => True) (V v) w → v.outline.Yields (V v) x r →
      r ≠ .error .notReady → ∀ now, J [] (w.put x (some (.stored (Entry.ofOutcome r now)))))
    (hforget : ∀ w, s.view.Forgets w → J [] w)
    (hunwatch : ∀ watcher, op = .unregister watcher → J [] (s.view.unwatch watcher))
    (hadd : ∀ kind args m now published, op = .create kind args → s.GivesStatics kind args →
      s.catalog.get kind = .ok m.kind → s.view.Lists m published →
      m.kind.Accepts (s.constructorArgs kind args) →
      J (wakes s.view.next m) (s.view.add m (s.constructorArgs kind args) now published)) :
    Ends (fun call => call op) s fun _ t => J [] t.view := by
  cases hop with
  | create hstatics =>
    exact create_ends P (P.regular h).sound hprepares hidentifies h fun m now published hkind hm =>
      hadd _ _ m now published rfl hstatics hkind hm
  | onField hn hop =>
    exact onField_ends P hop h hn (fun watcher heq => hallowed _ _ watcher heq) fun _ => hrecompute
  | unregister watcher =>
    refine (unregister_ends watcher).mono fun _ t ht => ?_
    rw [ht]
    exact hunwatch watcher rfl
  | expire age => exact (expire_ends age).mono fun _ t ht => hforget _ ht

/-- The arguments of a new instance change nothing for the ones that are there. -/
theorem coherent_givenAfter (h : Coherent c given s.view) (op : Operation) :
    Coherent c (s.givenAfter given op) s.view := by
  unfold givenAfter
  split
  · refine h.congr fun n m hm => Function.update_of_ne ?_ _ _
    have hlt := View.lt_next hm
    have hnext : s.view.next = s.instances.length := by simp [view, View.next, outline]
    omega
  · exact h

/-- A new instance was given its arguments. -/
theorem coherent_add (h : Coherent c given s.view) {kind : String} {args : Args}
    (hstatics : s.GivesStatics kind args) {m : Member} {now : Int} {published : Table Nat}
    (hkind : s.catalog.get kind = .ok m.kind) (hm : s.view.Lists m published)
    (haccepts : m.kind.Accepts (s.constructorArgs kind args)) :
    Coherent c (s.givenAfter given (.create kind args))
      (s.view.add m (s.constructorArgs kind args) now published) := by
  refine (coherent_givenAfter h (.create kind args)).add hm haccepts ?_ fun f spec w hspec hw => ?_
  · have hnext : s.view.next = s.instances.length := by simp [view, View.next, outline]
    rw [givenAfter, hnext, Function.update_self]
  · exact hstatics m.kind f spec w hkind hspec hw

/-- **A permitted operation ends, and leaves the session coherent.** -/
theorem coherent_ends (hpure : c.ComputesPurely) (hprepares : c.PreparesAlone)
    (hidentifies : c.IdentifiesByStatics) (h : Coherent c given s.view) {op : Operation}
    (hop : s.Plain op) :
    Ends (fun call => call op) s fun _ t => Coherent c (s.givenAfter given op) t.view := by
  have hcatalog : s.catalog = c := h.catalog
  have P := protocol_coherent hpure (s.givenAfter given op)
  have hsame := coherent_givenAfter h op
  refine plain_ends P (hcatalog ▸ hprepares) (hcatalog ▸ hidentifies) hop hsame
    (fun _ _ _ _ => trivial) ?_ (fun _ hw => hsame.forget hw) (fun watcher _ => hsame.unwatch watcher)
    ?_
  · intro v w x m spec r hv hx hcomputed hfills hyields hr now
    exact hv.rerun hpure ⟨m, spec, hx, hcomputed⟩ hfills hyields hr now
  · rintro kind args m now published rfl hstatics hkind hm haccepts
    exact coherent_add h hstatics hkind hm haccepts

/-- **Every session that can be reached is coherent.** -/
theorem coherent_of_reached (hlawful : c.Lawful) (hpure : c.ComputesPurely)
    (hprepares : c.PreparesAlone) (hidentifies : c.IdentifiesByStatics)
    (h : Reached c config s given) : Coherent c given s.view := by
  induction h with
  | new now =>
    refine ⟨regular_new config hlawful hpure.1 now, rfl, fun {x r} hx => ?_, fun {x m spec w} hx => ?_⟩
    · obtain ⟨m, spec, hx⟩ := hx
      have hmember := hx.member
      simp [Session.new, view, outline, Outline.member?] at hmember
    · have hmember := hx.member
      simp [Session.new, view, outline, Outline.member?] at hmember
  | wait _ now ih => exact ih
  | perform _ hop hrun ih => exact (coherent_ends hpure hprepares hidentifies ih hop).of_run hrun

/-! ## §4. The theorem. -/

/-- **Memoized evaluation is plain evaluation.**  Whatever was done before,
every operation has an answer, and resolving a field answers its evaluation:
the one that satisfies the recursive equation. -/
theorem resolve_eq_evaluate {file : Source.File} {schema : Schema} (hfile : file.Accepted schema)
    (hc : c.Over schema) (hpure : c.ComputesPurely) (hprepares : c.PreparesAlone)
    (hidentifies : c.IdentifiesByStatics) (h : Reached c config s given) :
    (∀ op, s.Plain op → ∃ fuel a t, s.run fuel op = some (a, t)) ∧
    (∀ x, s.outline.Has x →
      (∃ fuel t, s.run fuel (.resolve x.1 x.2) = some (s.evaluate given x, t)) ∧
      s.evaluate given x
        = (constants given x).getD (s.outline.valueOf (s.evaluate given) x)) := by
  have hcoherent := coherent_of_reached (hfile.lawful hc) hpure hprepares hidentifies h
  constructor
  · intro op hop
    obtain ⟨fuel, a, t, hrun, -⟩ := (coherent_ends hpure hprepares hidentifies hcoherent hop).run
    exact ⟨fuel, a, t, hrun⟩
  · intro x hx
    refine ⟨?_, hcoherent.regular.sound.evaluate_eq _ hx⟩
    obtain ⟨fuel, a, t, hrun, v, hv, hext, -, -, hanswer, -⟩ :=
      (@resolve_ends _ _ _ s x [] (protocol_coherent hpure given) hcoherent hx).run
    refine ⟨fuel, t, ?_⟩
    rw [hrun, hanswer, hext.outline]
    rfl

section Sample

open LazyFields.Sample

/-- The field `g` is watched, although `x` is not there yet. -/
def watchesG : Session := after hasR (.watch 0 "g" "w")

/-- The instance that `g` refers to was created. -/
def hasX : Session := after watchesG createX

/-- What the instances were given, step by step. -/
def hasRGiven : Nat → Args := start.givenAfter (fun _ => ∅) (.create "r" ∅)

def watchesGGiven : Nat → Args := hasR.givenAfter hasRGiven (.watch 0 "g" "w")

def hasXGiven : Nat → Args := watchesG.givenAfter watchesGGiven createX

theorem reached_hasX : Reached Sample.catalog ⟨1, 1, false, fun _ => none⟩ hasX hasXGiven := by
  obtain ⟨_, hr⟩ := run_after start (.create "r" ∅) (by decide +kernel)
  obtain ⟨_, hg⟩ := run_after hasR (.watch 0 "g" "w") (by decide +kernel)
  obtain ⟨_, hx⟩ := run_after watchesG createX (by decide +kernel)
  have hstart : Reached Sample.catalog ⟨1, 1, false, fun _ => none⟩ start fun _ => ∅ := .new 0
  have hhasR : Reached Sample.catalog ⟨1, 1, false, fun _ => none⟩ hasR hasRGiven :=
    hstart.perform (.create (by decide +kernel)) hr
  have hwatchesG : Reached Sample.catalog ⟨1, 1, false, fun _ => none⟩ watchesG watchesGGiven :=
    hhasR.perform (.onField (by decide +kernel) (.watch "w")) hg
  exact hwatchesG.perform (.create (by decide +kernel)) hx

/-- Once `x` is there, `f` resolves to what `x` was given. -/
theorem resolve_hasX : ∃ fuel t, hasX.run fuel (.resolve 0 "f") = some (.ok (.string "v"), t) := by
  have hspec := resolve_eq_evaluate accepted catalog_over computesPurely preparesAlone
    identifiesByStatics reached_hasX
  obtain ⟨fuel, t, hrun⟩ := (hspec.2 (0, "f") (by decide +kernel)).1
  have htext : isText "v" (hasX.evaluate hasXGiven (0, "f")) = true := by decide +kernel
  exact ⟨fuel, t, by rw [hrun, eq_of_isText htext]⟩

end Sample

end Session

end LazyFields
