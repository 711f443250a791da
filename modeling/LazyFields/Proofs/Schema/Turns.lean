/-
  LazyFields.Proofs.Schema.Turns
  ────────────────────────────────
  **WHAT THE COUNTS OF A GRAPH COUNT.**

  While the nodes of a graph have their turns, the count of a node is the
  number of the edges to it from nodes that have had none yet, with every edge
  as often as it occurs.  `Ordered` says so, for any number of turns, of the
  nodes `done` that have had theirs:

    · `ordered_start`, `ordered_turn`, `ordered_after` — it holds at the start,
      is kept by a turn, and so holds after any number of them
    · `ordered_finish` — in the end no node waits
    · `degree_nonneg` — no count is ever below zero, not even within a turn
    · `mem_residue_iff` — the residue are the nodes that had no turn
-/
import LazyFields.Schema.Cycles
import Mathlib.Data.List.Perm.Subperm
import Mathlib.Tactic.ByContra

namespace LazyFields.Graph

variable {g : Graph}

/-! ## §1. Counting edges. -/

/-- Adding edges to the counts. -/
theorem get?_foldl_addEdge (targets : List String) : ∀ (degrees : Table Int) (node : String),
    (targets.foldl addEdge degrees).get? node
      = if node ∈ targets then some ((degrees.get? node).getD 0 + targets.count node)
        else degrees.get? node := by
  induction targets with
  | nil => intro degrees node; rfl
  | cons x targets ih =>
    intro degrees node
    rw [List.foldl_cons, ih, addEdge, Table.get?_insert]
    by_cases hx : x = node
    · subst hx
      by_cases hmem : x ∈ targets
      · simp only [hmem, if_true, Option.getD_some, List.mem_cons_self, List.count_cons_self]
        congr 1
        omega
      · simp [hmem, List.count_eq_zero_of_not_mem hmem]
    · simp [hx, Ne.symm hx]

/-- Taking edges off the counts: a node is ready when its count has come down
to zero. -/
theorem foldl_removeEdge (targets : List String) : ∀ (s : Table Int × List String) (node : String),
    (targets.foldl removeEdge s).1.get? node = (s.1.get? node).map (fun d => d - (targets.count node : Int))
      ∧ (node ∈ (targets.foldl removeEdge s).2 ↔ node ∈ s.2
        ∨ ∃ d, s.1.get? node = some d ∧ 0 < d ∧ d ≤ targets.count node) := by
  induction targets with
  | nil =>
    intro s node
    refine ⟨by simp, ?_⟩
    simp only [List.foldl_nil, List.count_nil]
    constructor
    · exact .inl
    · rintro (h | ⟨d, -, hpos, hle⟩)
      · exact h
      · omega
  | cons x targets ih =>
    intro s node
    obtain ⟨hdegree, hready⟩ := ih (removeEdge s x) node
    rw [List.foldl_cons, hdegree, hready]
    unfold removeEdge
    cases hx : s.1.get? x with
    | none =>
      -- a name that is no node has no count
      by_cases heq : x = node
      · subst heq
        simp [hx]
      · simp [heq]
    | some d =>
      simp only [Table.get?_insert]
      by_cases heq : x = node
      · subst heq
        simp only [if_true, hx, Option.map_some, List.count_cons_self, Option.some.injEq,
          exists_eq_left']
        refine ⟨by omega, ?_⟩
        by_cases hlast : d - 1 = 0
        · rw [if_pos hlast]
          have hd : 0 < d ∧ d ≤ ((targets.count x + 1 : Nat) : Int) := by omega
          exact iff_of_true (.inl (by simp)) (.inr hd)
        · rw [if_neg hlast]
          have hd : (0 < d - 1 ∧ d - 1 ≤ (targets.count x : Int))
              ↔ 0 < d ∧ d ≤ ((targets.count x + 1 : Nat) : Int) := by omega
          rw [hd]
      · have hother : node ∈ (if d - 1 = 0 then s.2 ++ [x] else s.2) ↔ node ∈ s.2 := by
          by_cases hlast : d - 1 = 0 <;> simp [hlast, Ne.symm heq]
        simp [heq, hother]

/-- How many edges lead to the node from others than the given ones. -/
def pending (g : Graph) (done : List String) (node : String) : Nat :=
  g.edges.countP fun e => e.2 == node && !done.contains e.1

theorem pending_nil (node : String) : g.pending [] node = (g.edges.map Prod.snd).count node := by
  rw [List.count_eq_countP, List.countP_map, pending]
  refine List.countP_congr fun e _ => ?_
  simp

/-- A turn settles the edges that leave its node. -/
theorem pending_append {done : List String} {x : String} (hx : x ∉ done) (node : String) :
    g.pending (done ++ [x]) node + (g.successors x).count node = g.pending done node := by
  unfold pending successors
  induction g.edges with
  | nil => rfl
  | cons e edges ih =>
    by_cases hfrom : e.1 = x
    · -- an edge that leaves the node is pending before the turn only
      subst hfrom
      by_cases hto : e.2 = node <;> simp [hto, hx] at ih ⊢ <;> omega
    · by_cases hto : e.2 = node <;> simp [List.countP_cons, hto, hfrom] at ih ⊢ <;> omega

theorem pending_eq_zero_iff {done : List String} {node : String} :
    g.pending done node = 0 ↔ ∀ a, (a, node) ∈ g.edges → a ∈ done := by
  unfold pending
  rw [List.countP_eq_zero]
  constructor
  · intro h a hedge
    simpa using h (a, node) hedge
  · intro h e he
    obtain ⟨a, b⟩ := e
    by_cases hb : b = node
    · subst hb
      simpa using h a he
    · simp [hb]

/-! ## §2. Turn by turn. -/

/-- Edges join nodes. -/
def Closed (g : Graph) : Prop := ∀ a b, (a, b) ∈ g.edges → a ∈ g.nodes.keys ∧ b ∈ g.nodes.keys

/-- The nodes `done` have had their turns, in this order. -/
structure Ordered (g : Graph) (done : List String) (t : Turns) : Prop where
  /-- The counts are those of the edges from all other nodes. -/
  degree : ∀ node, t.degrees.get? node
    = if node ∈ g.nodes.keys then some (g.pending done node : Int) else none
  /-- No node has a second turn. -/
  nodup : (done ++ t.waiting).Nodup
  ready : ∀ node, node ∈ done ++ t.waiting ↔ node ∈ g.nodes.keys ∧ g.pending done node = 0
  count : t.count = done.length
  /-- Dependencies had their turns before what depends on them. -/
  sorted : ∀ a b, (a, b) ∈ g.edges → b ∈ done → done.idxOf a < done.idxOf b

theorem get?_inDegrees (hg : g.Closed) (node : String) : g.inDegrees.get? node
    = if node ∈ g.nodes.keys then some (g.pending [] node : Int) else none := by
  rw [pending_nil, inDegrees, get?_foldl_addEdge, Table.get?_map]
  have hnode : node ∈ g.nodes.keys ↔ (g.nodes.get? node).isSome := Table.contains_iff_mem_keys.symm
  cases hget : g.nodes.get? node with
  | some u =>
    have hmem : node ∈ g.nodes.keys := hnode.2 (by simp [hget])
    by_cases htarget : node ∈ g.edges.map Prod.snd
    · simp [hmem, htarget]
    · simp [hmem, htarget, List.count_eq_zero_of_not_mem htarget]
  | none =>
    have hmem : node ∉ g.nodes.keys := by simp [hnode, hget]
    have htarget : node ∉ g.edges.map Prod.snd := by
      intro h
      obtain ⟨⟨a, b⟩, hedge, rfl⟩ := List.mem_map.1 h
      exact hmem (hg a b hedge).2
    simp [hmem, htarget]

/-- The nodes with a count of the given kind. -/
theorem mem_keys_filter {degrees : Table Int} {p : Int → Bool} {node : String} :
    node ∈ (degrees.filter fun _ d => p d).keys ↔ ∃ d, degrees.get? node = some d ∧ p d = true := by
  rw [← Table.contains_iff_mem_keys, Table.contains, Table.get?_filter, Option.isSome_filter,
    Option.any_eq_true]

theorem ordered_start (hg : g.Closed) : g.Ordered [] g.start where
  degree := get?_inDegrees hg
  nodup := Table.nodup_keys _
  ready := by
    intro node
    show node ∈ (g.inDegrees.filter fun _ d => d = 0).keys ↔ _
    rw [mem_keys_filter, get?_inDegrees hg]
    by_cases hnode : node ∈ g.nodes.keys <;> simp [hnode]
  count := rfl
  sorted := by
    intro a b _ hb
    exact absurd hb List.not_mem_nil

section Turn

variable {done rest : List String} {t : Turns} {node : String}

/-- The node whose turn it is has had none and waits for nothing. -/
theorem Ordered.next (h : g.Ordered done t) (hwaiting : t.waiting = node :: rest) :
    node ∈ g.nodes.keys ∧ g.pending done node = 0 ∧ node ∉ done := by
  have hmem : node ∈ done ++ t.waiting := by simp [hwaiting]
  obtain ⟨hnode, hzero⟩ := (h.ready node).1 hmem
  have hnodup := h.nodup
  rw [hwaiting, List.nodup_append] at hnodup
  refine ⟨hnode, hzero, fun hdone => ?_⟩
  exact hnodup.2.2 node hdone node List.mem_cons_self rfl

/-- **A turn keeps the counts right.** -/
theorem ordered_turn (h : g.Ordered done t) (hwaiting : t.waiting = node :: rest) :
    g.Ordered (done ++ [node]) (g.turn t) := by
  obtain ⟨hnode, hzero, hfresh⟩ := h.next hwaiting
  have hpending := fun x => pending_append (g := g) hfresh x
  obtain ⟨after, hafter⟩ : ∃ after, (g.successors node).foldl removeEdge (t.degrees, []) = after :=
    ⟨_, rfl⟩
  have hturn : g.turn t = ⟨after.1, rest ++ (Table.ofNames after.2).keys, t.count + 1⟩ := by
    rw [turn, hwaiting]
    simp only [hafter]
  have hdegree : ∀ x, after.1.get? x
      = if x ∈ g.nodes.keys then some (g.pending (done ++ [node]) x : Int) else none := by
    intro x
    rw [← hafter, (foldl_removeEdge _ _ x).1, h.degree]
    by_cases hx : x ∈ g.nodes.keys
    · simp only [hx, if_true, Option.map_some, Option.some.injEq]
      have := hpending x
      omega
    · simp [hx]
  -- ready now: what counted some edges before, all from this node
  have hready : ∀ x, x ∈ after.2
      ↔ x ∈ g.nodes.keys ∧ g.pending done x ≠ 0 ∧ g.pending (done ++ [node]) x = 0 := by
    intro x
    rw [← hafter, (foldl_removeEdge _ _ x).2, h.degree]
    by_cases hx : x ∈ g.nodes.keys
    · have := hpending x
      simp only [hx, if_true, List.not_mem_nil, false_or, Option.some.injEq, exists_eq_left',
        true_and]
      omega
    · simp [hx]
  have hold : ∀ x, x ∈ done ++ node :: rest ↔ x ∈ g.nodes.keys ∧ g.pending done x = 0 := by
    intro x
    rw [← hwaiting]
    exact h.ready x
  rw [hturn]
  refine ⟨hdegree, ?_, fun x => ?_, by simp [h.count], fun a b hedge hb => ?_⟩
  · show ((done ++ [node]) ++ (rest ++ (Table.ofNames after.2).keys)).Nodup
    have hsplit : (done ++ [node]) ++ (rest ++ (Table.ofNames after.2).keys)
        = (done ++ node :: rest) ++ (Table.ofNames after.2).keys := by simp
    rw [hsplit, List.nodup_append]
    refine ⟨hwaiting ▸ h.nodup, Table.nodup_keys _, ?_⟩
    intro x hx y hy heq
    subst heq
    exact ((hready x).1 (Table.mem_keys_ofNames.1 hy)).2.1 ((hold x).1 hx).2
  · show x ∈ (done ++ [node]) ++ (rest ++ (Table.ofNames after.2).keys) ↔ _
    have hsplit : x ∈ (done ++ [node]) ++ (rest ++ (Table.ofNames after.2).keys)
        ↔ x ∈ done ++ node :: rest ∨ x ∈ after.2 := by
      simp [Table.mem_keys_ofNames, or_assoc]
    have := hpending x
    rw [hsplit, hold, hready]
    by_cases hx : x ∈ g.nodes.keys
    · simp only [hx, true_and]
      omega
    · simp [hx]
  · rcases List.mem_append.1 hb with hb | hb
    · have hlt := h.sorted a b hedge hb
      have ha : a ∈ done := List.idxOf_lt_length_iff.1 (Nat.lt_trans hlt (List.idxOf_lt_length_iff.2 hb))
      rwa [List.idxOf_append_of_mem ha, List.idxOf_append_of_mem hb]
    · -- all that leads to the node had its turn before
      obtain rfl := List.mem_singleton.1 hb
      have ha : a ∈ done := pending_eq_zero_iff.1 hzero a hedge
      have hlt := List.idxOf_lt_length_iff.2 ha
      rw [List.idxOf_append_of_mem ha, List.idxOf_append_of_notMem hfresh]
      omega

end Turn

theorem turn_of_nil {t : Turns} (h : t.waiting = []) : g.turn t = t := by
  rw [turn, h]

/-- **After any number of turns the counts are right**, and unless the nodes had
that many turns, none waits any more. -/
theorem ordered_after (hg : g.Closed) (n : Nat) :
    ∃ done, g.Ordered done (g.after n) ∧ (done.length = n ∨ (g.after n).waiting = []) := by
  induction n with
  | zero => exact ⟨[], ordered_start hg, .inl rfl⟩
  | succ n ih =>
    obtain ⟨done, h, hn⟩ := ih
    cases hwaiting : (g.after n).waiting with
    | nil =>
      have hsame : g.after (n + 1) = g.after n := turn_of_nil hwaiting
      exact ⟨done, hsame ▸ h, .inr (hsame ▸ hwaiting)⟩
    | cons node rest =>
      have hlength : done.length = n := hn.resolve_right (by simp [hwaiting])
      exact ⟨done ++ [node], ordered_turn h hwaiting, .inl (by simp [hlength])⟩

/-- In the end no node waits. -/
theorem ordered_finish (hg : g.Closed) :
    ∃ done, g.Ordered done g.finish ∧ g.finish.waiting = [] := by
  obtain ⟨done, h, hn⟩ := ordered_after hg g.nodes.size
  refine ⟨done, h, ?_⟩
  rcases hn with hn | hn
  · -- all nodes have had their turns, so there is none left to wait
    have hsubset : done ++ (g.after g.nodes.size).waiting ⊆ g.nodes.keys :=
      fun x hx => ((h.ready x).1 hx).1
    have hle := (List.subperm_of_subset h.nodup hsubset).length_le
    have hsize : g.nodes.keys.length = g.nodes.size := by simp [Table.keys, Table.size]
    rw [List.length_append, hn, hsize] at hle
    exact List.eq_nil_of_length_eq_zero (by show (g.after g.nodes.size).waiting.length = 0; omega)
  · exact hn

/-! ## §3. Counts below zero. -/

/-- The counts at some moment: at the start, or within a turn, when some of the
edges that leave its node are removed. -/
inductive Shows (g : Graph) : Table Int → Prop
  | start : Shows g g.inDegrees
  | removed {n : Nat} {node : String} {rest removed kept : List String} :
      (g.after n).waiting = node :: rest → g.successors node = removed ++ kept →
      Shows g (removed.foldl removeEdge ((g.after n).degrees, [])).1

/-- **No count is ever below zero.** -/
theorem degree_nonneg (hg : g.Closed) {degrees : Table Int} (h : g.Shows degrees) {node : String}
    {d : Int} (hd : degrees.get? node = some d) : 0 ≤ d := by
  cases h with
  | start =>
    rw [get?_inDegrees hg] at hd
    split at hd
    · cases hd
      omega
    · simp at hd
  | @removed n current rest removed kept hwaiting hsplit =>
    obtain ⟨done, h, -⟩ := ordered_after hg n
    obtain ⟨-, -, hfresh⟩ := h.next hwaiting
    rw [(foldl_removeEdge _ _ node).1, h.degree] at hd
    split at hd
    · -- each removed edge was counted
      have hpending := pending_append (g := g) hfresh node
      rw [hsplit, List.count_append] at hpending
      simp only [Option.map_some, Option.some.injEq] at hd
      omega
    · simp at hd

/-! ## §4. What is left. -/

section Finished

variable {done : List String}

/-- **The residue are the nodes that had no turn.** -/
theorem mem_residue_iff (h : g.Ordered done g.finish) (hend : g.finish.waiting = [])
    {node : String} : node ∈ g.residue ↔ node ∈ g.nodes.keys ∧ node ∉ done := by
  have hready := h.ready node
  rw [hend, List.append_nil] at hready
  show node ∈ (g.finish.degrees.filter fun _ d => 0 < d).keys ↔ _
  rw [mem_keys_filter, h.degree, hready]
  by_cases hnode : node ∈ g.nodes.keys
  · simp [hnode]
    omega
  · simp [hnode]

/-- All nodes had their turns when as many had one as there are. -/
theorem count_eq_size_iff (h : g.Ordered done g.finish) (hend : g.finish.waiting = []) :
    g.finish.count = g.nodes.size ↔ g.residue = [] := by
  have hnodup := h.nodup
  have hready := h.ready
  rw [hend, List.append_nil] at hnodup
  simp only [hend, List.append_nil] at hready
  have hsubset : done ⊆ g.nodes.keys := fun x hx => ((hready x).1 hx).1
  have hsize : g.nodes.keys.length = g.nodes.size := by simp [Table.keys, Table.size]
  rw [h.count, ← hsize]
  constructor
  · intro hlength
    -- as many different nodes of the graph as it has are all of its nodes
    have hperm : done.Perm g.nodes.keys :=
      (List.subperm_of_subset hnodup hsubset).perm_of_length_le (by omega)
    refine List.eq_nil_iff_forall_not_mem.2 fun x hx => ?_
    obtain ⟨hnode, hnot⟩ := (mem_residue_iff h hend).1 hx
    exact hnot (hperm.mem_iff.2 hnode)
  · intro hnil
    have hall : g.nodes.keys ⊆ done := by
      intro x hx
      by_contra hnot
      have hmem : x ∈ g.residue := (mem_residue_iff h hend).2 ⟨hx, hnot⟩
      simp [hnil] at hmem
    have hle := (List.subperm_of_subset hnodup hsubset).length_le
    have hge := (List.subperm_of_subset (Table.nodup_keys g.nodes) hall).length_le
    omega

end Finished

end LazyFields.Graph
