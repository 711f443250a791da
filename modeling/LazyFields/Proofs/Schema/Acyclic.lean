/-
  LazyFields.Proofs.Schema.Acyclic
  ────────────────────────────────
  **WHAT IS LEFT IS WHAT LIES BEHIND A CYCLE.**

  Whatever leads to a node that had its turn had its own before, so no cycle
  leads there; that is one half.  For the other, each node that is left has an
  edge from another one that is left, and a finite relation without cycles
  cannot go back for ever (`exists_cycle`).

    · `mem_residue_iff_behind` — the residue are the nodes on a cycle or
      reachable from one
    · `residue_eq_nil_iff` — nothing is left exactly when there is no cycle
-/
import LazyFields.Proofs.Schema.Turns
import Mathlib.Data.Set.Finite.Basic
import Mathlib.Logic.Relation

namespace LazyFields.Graph

open Relation (TransGen ReflTransGen)

variable {g : Graph} {edges : List (String × String)}

/-- There is an edge from the first node to the second. -/
def Leads (edges : List (String × String)) (a b : String) : Prop := (a, b) ∈ edges

/-- The node lies on a cycle or is reachable from one. -/
def Behind (edges : List (String × String)) (node : String) : Prop :=
  ∃ c, TransGen (Leads edges) c c ∧ ReflTransGen (Leads edges) c node

/-- Nodes that each have an edge from one of them hold a cycle. -/
theorem exists_cycle {nodes : List String} (h : ∀ b ∈ nodes, ∃ a ∈ nodes, Leads edges a b)
    (hne : nodes ≠ []) : ∃ a ∈ nodes, TransGen (Leads edges) a a := by
  by_contra hacyclic
  push Not at hacyclic
  let r : {x // x ∈ nodes} → {x // x ∈ nodes} → Prop := fun a b => TransGen (Leads edges) a b
  have htrans : IsTrans _ r := ⟨fun _ _ _ hab hbc => hab.trans hbc⟩
  have hirrefl : Std.Irrefl r := ⟨fun a => hacyclic a a.2⟩
  have hfinite : Finite {x // x ∈ nodes} := List.finite_toSet nodes
  have hwf : WellFounded r := Finite.wellFounded_of_trans_of_irrefl r
  have hnone : {x // x ∈ nodes} → False := by
    intro b
    induction b using hwf.induction with
    | h b ih =>
      obtain ⟨a, ha, hedge⟩ := h b b.2
      exact ih ⟨a, ha⟩ (.single hedge)
  obtain ⟨first, hfirst⟩ := List.exists_mem_of_ne_nil nodes hne
  exact hnone ⟨first, hfirst⟩

section Finished

variable {done : List String}

/-- What leads to a node that had its turn had its own before. -/
theorem Ordered.idxOf_lt (h : g.Ordered done g.finish) {a b : String}
    (hab : TransGen (Leads g.edges) a b) (hb : b ∈ done) : done.idxOf a < done.idxOf b := by
  induction hab with
  | single hedge => exact h.sorted _ _ hedge hb
  | tail _ hedge ih =>
    have hlt := h.sorted _ _ hedge hb
    have hmid := List.idxOf_lt_length_iff.1 (Nat.lt_trans hlt (List.idxOf_lt_length_iff.2 hb))
    exact Nat.lt_trans (ih hmid) hlt

/-- So it lies behind no cycle. -/
theorem Ordered.not_behind (h : g.Ordered done g.finish) {node : String} (hnode : node ∈ done) :
    ¬ Behind g.edges node := by
  rintro ⟨c, hcycle, hreach⟩
  have hc : c ∈ done := by
    rcases Relation.reflTransGen_iff_eq_or_transGen.1 hreach with heq | hpath
    · rwa [← heq]
    · have hlt := h.idxOf_lt hpath hnode
      exact List.idxOf_lt_length_iff.1 (Nat.lt_trans hlt (List.idxOf_lt_length_iff.2 hnode))
  exact Nat.lt_irrefl _ (h.idxOf_lt hcycle hc)

/-- A node that is left has an edge from another one that is left. -/
theorem Ordered.exists_left (hg : g.Closed) (h : g.Ordered done g.finish)
    (hend : g.finish.waiting = []) {b : String} (hb : b ∈ g.residue) :
    ∃ a ∈ g.residue, Leads g.edges a b := by
  obtain ⟨hnode, hnot⟩ := (mem_residue_iff h hend).1 hb
  have hready := h.ready b
  rw [hend, List.append_nil] at hready
  have hpending : ¬ ∀ a, (a, b) ∈ g.edges → a ∈ done := fun hall =>
    hnot (hready.2 ⟨hnode, pending_eq_zero_iff.2 hall⟩)
  push Not at hpending
  obtain ⟨a, hedge, ha⟩ := hpending
  exact ⟨a, (mem_residue_iff h hend).2 ⟨(hg a b hedge).1, ha⟩, hedge⟩

end Finished

/-- **The residue are the nodes on a cycle or reachable from one.** -/
theorem mem_residue_iff_behind (hg : g.Closed) {node : String} :
    node ∈ g.residue ↔ Behind g.edges node := by
  obtain ⟨done, h, hend⟩ := g.ordered_finish hg
  constructor
  · intro hnode
    classical
    -- going back from the node, one stays among those that are left
    let before := g.residue.filter fun a => ReflTransGen (Leads g.edges) a node
    have hback : ∀ b ∈ before, ∃ a ∈ before, Leads g.edges a b := by
      intro b hb
      obtain ⟨hleft, hreach⟩ := List.mem_filter.1 hb
      obtain ⟨a, ha, hedge⟩ := h.exists_left hg hend hleft
      have hpath : ReflTransGen (Leads g.edges) a node := .head hedge (of_decide_eq_true hreach)
      exact ⟨a, List.mem_filter.2 ⟨ha, decide_eq_true hpath⟩, hedge⟩
    have hself : node ∈ before := List.mem_filter.2 ⟨hnode, decide_eq_true .refl⟩
    obtain ⟨c, hc, hcycle⟩ := exists_cycle hback (List.ne_nil_of_mem hself)
    exact ⟨c, hcycle, of_decide_eq_true (List.mem_filter.1 hc).2⟩
  · intro hbehind
    have hnode : node ∈ g.nodes.keys := by
      obtain ⟨c, hcycle, hreach⟩ := hbehind
      obtain ⟨a, -, hedge⟩ := Relation.TransGen.tail'_iff.1 (hcycle.trans_left hreach)
      exact (hg a node hedge).2
    refine (mem_residue_iff h hend).2 ⟨hnode, fun hdone => ?_⟩
    exact h.not_behind hdone hbehind

/-- **Nothing is left of a graph exactly when it has no cycle.** -/
theorem residue_eq_nil_iff (hg : g.Closed) :
    g.residue = [] ↔ ∀ a, ¬ TransGen (Leads g.edges) a a := by
  rw [List.eq_nil_iff_forall_not_mem]
  simp only [mem_residue_iff_behind hg]
  constructor
  · exact fun h a hcycle => h a ⟨a, hcycle, .refl⟩
  · rintro h node ⟨c, hcycle, -⟩
    exact h c hcycle

end LazyFields.Graph
