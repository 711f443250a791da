/-
  LazyFields.Proofs.Schema.Order
  ────────────────────────────────
  **A SCHEMA WITHOUT A RESIDUE CAN BE ORDERED.**

  The place in the order of turns is a rank: a node has its turn after those
  that have an edge to it.  So a graph whose nodes all have their turns has a
  rank that grows along its edges (`exists_rank_of_residue`), and a schema with
  such a graph has one that grows from each field to the computed fields that
  refer to it (`exists_rank_of_checkAcyclic`).
-/
import LazyFields.Proofs.Catalog.Lawful
import LazyFields.Proofs.Schema.Turns

namespace LazyFields

/-! ## §1. Graphs. -/

theorem Graph.exists_rank_of_residue {g : Graph} (hg : g.Closed) (h : g.residue = []) :
    ∃ rank : String → Nat, (∀ x, rank x ≤ g.nodes.size)
      ∧ ∀ a b, (a, b) ∈ g.edges → rank a < rank b := by
  obtain ⟨done, hordered, hend⟩ := g.ordered_finish hg
  have hcount : done.length = g.nodes.size := by
    rw [← hordered.count]
    exact (count_eq_size_iff hordered hend).2 h
  -- the rank is the number of the turn
  refine ⟨fun x => done.idxOf x, fun x => ?_, fun a b hedge => ?_⟩
  · rw [← hcount]
    exact List.idxOf_le_length
  · have hb : b ∈ done := by
      by_contra hnot
      have hmem : b ∈ g.residue := (mem_residue_iff hordered hend).2 ⟨(hg a b hedge).2, hnot⟩
      simp [h] at hmem
    exact hordered.sorted a b hedge hb

/-! ## §2. Nodes and edges of a schema. -/

theorem splitReference_of_some {reference kind field : String}
    (h : splitReference reference = (some kind, field)) : reference = kind ++ "." ++ field := by
  unfold splitReference Text.splitLast? at h
  split at h
  · next resource field' hcut =>
    obtain ⟨⟨a, b⟩, hab, heq⟩ := Option.map_eq_some_iff.1 hcut
    simp only [Prod.mk.injEq, Option.some.injEq] at h heq
    obtain ⟨rfl, rfl⟩ := h
    obtain ⟨rfl, rfl⟩ := heq
    apply String.toList_inj.1
    simp [(Text.eq_append_of_cutLast hab).1]
  · simp at h

/-- The node that a reference names is that of the field it names. -/
theorem fieldNode_referent (kind reference : String) :
    fieldNode (referent kind reference).1 (referent kind reference).2
      = refNode kind reference := by
  unfold referent refNode
  rcases h : splitReference reference with ⟨_ | other, field⟩
  · rfl
  · exact (splitReference_of_some h).symm

namespace Schema

variable {s : Schema}

theorem mem_computedFields {id : String} {info : ResourceSpec} {f : String} {spec : FieldSpec}
    (hinfo : s.resources.get? id = some info) (hspec : info.fields.get? f = some spec)
    (hcomputed : spec.isStatic = false) : (id, spec) ∈ s.computedFields := by
  refine List.mem_flatMap.2 ⟨(id, info), Table.get?_eq_some_iff_mem.1 hinfo, ?_⟩
  refine List.mem_map.2 ⟨spec, List.mem_filter.2 ⟨?_, by simp [hcomputed]⟩, rfl⟩
  exact List.mem_map.2 ⟨(f, spec), Table.get?_eq_some_iff_mem.1 hspec, rfl⟩

theorem mem_nodes {id : String} {spec : FieldSpec} (h : (id, spec) ∈ s.computedFields) :
    s.graph.nodes.contains (fieldNode id spec.name) :=
  Table.contains_ofNames.2 (List.mem_map.2 ⟨(id, spec), h, rfl⟩)

/-- An edge leads from a computed field to one that refers to it. -/
theorem mem_edges_iff {a b : String} : (a, b) ∈ s.graph.edges
    ↔ ∃ id spec, (id, spec) ∈ s.computedFields ∧ (∃ reference ∈ spec.refs, refNode id reference = a)
      ∧ fieldNode id spec.name = b ∧ s.graph.nodes.contains a := by
  constructor
  · intro h
    obtain ⟨⟨id, spec⟩, hspec, h⟩ := List.mem_flatMap.1 h
    obtain ⟨dep, hdep, hedge⟩ := List.mem_filterMap.1 h
    obtain ⟨reference, href, rfl⟩ := List.mem_map.1 hdep
    dsimp only at hedge
    split at hedge
    · next hnode =>
      cases hedge
      exact ⟨id, spec, hspec, ⟨reference, href, rfl⟩, rfl, hnode⟩
    · simp at hedge
  · rintro ⟨id, spec, hspec, ⟨reference, href, rfl⟩, rfl, hnode⟩
    refine List.mem_flatMap.2 ⟨(id, spec), hspec, List.mem_filterMap.2 ?_⟩
    exact ⟨refNode id reference, List.mem_map.2 ⟨reference, href, rfl⟩, if_pos hnode⟩

theorem mem_edges {id : String} {spec : FieldSpec} {reference : String}
    (h : (id, spec) ∈ s.computedFields) (href : reference ∈ spec.refs)
    (hnode : s.graph.nodes.contains (refNode id reference)) :
    (refNode id reference, fieldNode id spec.name) ∈ s.graph.edges :=
  mem_edges_iff.2 ⟨id, spec, h, ⟨reference, href, rfl⟩, rfl, hnode⟩

theorem closed_graph (s : Schema) : s.graph.Closed := by
  intro a b hedge
  obtain ⟨id, spec, hspec, -, rfl, hnode⟩ := mem_edges_iff.1 hedge
  exact ⟨Table.contains_iff_mem_keys.1 hnode, Table.contains_iff_mem_keys.1 (mem_nodes hspec)⟩

/-- A schema is let through when nothing is left of its graph. -/
theorem checkAcyclic_isOk_iff_residue : s.checkAcyclic = .ok () ↔ s.graph.residue = [] := by
  obtain ⟨done, hordered, hend⟩ := s.graph.ordered_finish s.closed_graph
  rw [← Graph.count_eq_size_iff hordered hend]
  unfold checkAcyclic
  split
  · next hcount => simp [hcount]
  · next hcount => simp [hcount]

/-- **The computed fields of an accepted schema can be ordered.** -/
theorem exists_rank_of_checkAcyclic (h : s.checkAcyclic = .ok ()) :
    ∃ rank : String → Nat, (∀ node, rank node ≤ s.graph.nodes.size)
      ∧ ∀ id spec reference, (id, spec) ∈ s.computedFields → reference ∈ spec.refs →
        s.graph.nodes.contains (refNode id reference) →
        rank (refNode id reference) < rank (fieldNode id spec.name) := by
  obtain ⟨rank, hbound, hrank⟩ :=
    Graph.exists_rank_of_residue s.closed_graph (checkAcyclic_isOk_iff_residue.1 h)
  refine ⟨rank, hbound, fun id spec reference hspec href hnode => ?_⟩
  exact hrank _ _ (mem_edges hspec href hnode)

end Schema

end LazyFields
