/-
  LazyFields.Proofs.Schema.DependencyCycle
  ────────────────────────────────
  **DEPENDENCY CYCLES ARE FOUND EXACTLY.**

  What depends on what in a schema can be said without a graph: a node is the
  text `id.field` of a computed field, and a reference leads from the node it
  denotes, if it is one, to that of the field it stands in.  The schema may be
  any: names may hold dots, fields may be kept under other names than their
  own, and two computed fields may have the same node.

      cycle in the dependencies  ↔  refused, with all nodes behind a cycle

  The counts by which the nodes are ordered are part of the statement: they
  are never below zero, at no moment of the run (`checkAcyclic_exact`).
-/
import LazyFields.Proofs.Schema.Acyclic
import LazyFields.Proofs.Schema.Order

namespace LazyFields.Schema

open Relation (TransGen ReflTransGen)

variable {s : Schema}

/-! ## §1. Dependencies. -/

/-- The resource `id` has the computed field. -/
def HasComputed (s : Schema) (id : String) (spec : FieldSpec) : Prop :=
  ∃ info key, s.resources.get? id = some info ∧ info.fields.get? key = some spec
    ∧ spec.isStatic = false

/-- The text is the node of a computed field. -/
def IsNode (s : Schema) (node : String) : Prop :=
  ∃ id spec, s.HasComputed id spec ∧ node = id ++ "." ++ spec.name

/-- What a reference in the resource `id` denotes: without a dot it is meant
within the resource. -/
inductive Denotes (id : String) : String → String → Prop
  | own {field : String} : '.' ∉ field.toList → Denotes id field (id ++ "." ++ field)
  | dotted {reference : String} : '.' ∈ reference.toList → Denotes id reference reference

/-- The second node is that of a computed field with a reference that denotes
the first node. -/
def Feeds (s : Schema) (a b : String) : Prop :=
  s.IsNode a ∧ ∃ id spec, s.HasComputed id spec ∧ b = id ++ "." ++ spec.name
    ∧ ∃ reference ∈ spec.refs, Denotes id reference a

/-! ## §2. Dependencies are the edges of the graph. -/

theorem mem_computedFields_iff {id : String} {spec : FieldSpec} :
    (id, spec) ∈ s.computedFields ↔ s.HasComputed id spec := by
  constructor
  · intro h
    obtain ⟨⟨id', info⟩, hinfo, h⟩ := List.mem_flatMap.1 h
    obtain ⟨spec', hspec, heq⟩ := List.mem_map.1 h
    cases heq
    obtain ⟨hvalue, hcomputed⟩ := List.mem_filter.1 hspec
    obtain ⟨key, hkey⟩ := Table.mem_values.1 hvalue
    exact ⟨info, key, Table.get?_eq_some_iff_mem.2 hinfo, hkey, by simpa using hcomputed⟩
  · intro h
    obtain ⟨info, key, hinfo, hkey, hcomputed⟩ := h
    exact mem_computedFields hinfo hkey hcomputed

theorem contains_nodes_iff {node : String} : s.graph.nodes.contains node = true ↔ s.IsNode node := by
  show (Table.ofNames _).contains node = true ↔ _
  rw [Table.contains_ofNames, List.mem_map]
  constructor
  · intro h
    obtain ⟨⟨id, spec⟩, hspec, rfl⟩ := h
    exact ⟨id, spec, mem_computedFields_iff.1 hspec, rfl⟩
  · intro h
    obtain ⟨id, spec, hspec, rfl⟩ := h
    exact ⟨(id, spec), mem_computedFields_iff.2 hspec, rfl⟩

theorem refNode_eq_iff {id reference node : String} :
    refNode id reference = node ↔ Denotes id reference node := by
  unfold refNode splitReference
  cases hsplit : Text.splitLast? '.' reference with
  | none =>
    have hdot : '.' ∉ reference.toList := Text.splitLast?_eq_none_iff.1 hsplit
    constructor
    · intro h
      subst h
      exact .own hdot
    · intro h
      cases h with
      | own => rfl
      | dotted hnot => exact absurd hnot hdot
  | some p =>
    obtain ⟨target, field⟩ := p
    have hdot : '.' ∈ reference.toList := by
      obtain ⟨heq, -⟩ := Text.splitLast?_eq_some_iff.1 hsplit
      simp [heq]
    constructor
    · intro h
      subst h
      exact .dotted hdot
    · intro h
      cases h with
      | own hnot => exact absurd hdot hnot
      | dotted => rfl

theorem leads_iff_feeds {a b : String} : Graph.Leads s.graph.edges a b ↔ s.Feeds a b := by
  rw [Graph.Leads, mem_edges_iff]
  simp only [mem_computedFields_iff, contains_nodes_iff, refNode_eq_iff]
  constructor
  · intro h
    obtain ⟨id, spec, hspec, hreference, hend, hnode⟩ := h
    exact ⟨hnode, id, spec, hspec, hend.symm, hreference⟩
  · intro h
    obtain ⟨hnode, id, spec, hspec, hend, hreference⟩ := h
    exact ⟨id, spec, hspec, hreference, hend.symm, hnode⟩

theorem leads_eq_feeds (s : Schema) : Graph.Leads s.graph.edges = s.Feeds := by
  funext a b
  exact propext leads_iff_feeds

/-! ## §3. The check. -/

/-- What is left comes in order and without repetition. -/
theorem pairwise_residue (g : Graph) : g.residue.Pairwise (· < ·) := Table.pairwise_keys _

theorem mem_residue_graph_iff {node : String} : node ∈ s.graph.residue
    ↔ ∃ c, TransGen s.Feeds c c ∧ ReflTransGen s.Feeds c node := by
  rw [Graph.mem_residue_iff_behind s.closed_graph, Graph.Behind, leads_eq_feeds]

/-- A schema that is not let through is refused with what is left of its graph. -/
theorem checkAcyclic_eq_error (h : s.graph.residue ≠ []) :
    s.checkAcyclic = .error (.dependencyCycle s.graph.residue) := by
  have hnot : s.checkAcyclic ≠ .ok () := mt checkAcyclic_isOk_iff_residue.1 h
  unfold checkAcyclic at hnot ⊢
  split at hnot
  · exact absurd rfl hnot
  · next hcount => rw [if_neg hcount]

/-- **Dependency cycles are found exactly.**  A schema is let through when no
node depends on itself; otherwise all nodes that depend on such a node, or are
one, are reported, in order and once each.  No count of edges is ever below
zero. -/
theorem checkAcyclic_exact (s : Schema) :
    (s.checkAcyclic = .ok () ↔ ∀ node, ¬ TransGen s.Feeds node node)
      ∧ ((∃ node, TransGen s.Feeds node node) →
        ∃ members, s.checkAcyclic = .error (.dependencyCycle members)
          ∧ members.Pairwise (· < ·)
          ∧ ∀ node, node ∈ members
            ↔ ∃ c, TransGen s.Feeds c c ∧ ReflTransGen s.Feeds c node)
      ∧ ∀ degrees, s.graph.Shows degrees →
        ∀ node d, degrees.get? node = some d → 0 ≤ d := by
  refine ⟨?_, ?_, ?_⟩
  · rw [checkAcyclic_isOk_iff_residue, Graph.residue_eq_nil_iff s.closed_graph, leads_eq_feeds]
  · intro h
    obtain ⟨c, hcycle⟩ := h
    have hleft : c ∈ s.graph.residue := mem_residue_graph_iff.2 ⟨c, hcycle, .refl⟩
    refine ⟨s.graph.residue, checkAcyclic_eq_error (List.ne_nil_of_mem hleft), ?_, ?_⟩
    · exact pairwise_residue s.graph
    · exact fun node => mem_residue_graph_iff
  · intro degrees hmoment node d hd
    exact Graph.degree_nonneg s.closed_graph hmoment hd

end LazyFields.Schema
