/-
  LazyFields.Schema.Cycles
  ────────────────────────────────
  **DEPENDENCY CYCLES.**

  The computed fields of a schema are the nodes of a graph; a reference to a
  computed field is an edge from it to the field that refers.  Each node
  counts the edges that lead to it.  The nodes that count none have their turn
  one after the other, and what has its turn takes the edges that leave it off
  the counts, so that further nodes get ready.  The nodes that still count
  edges in the end,

      graph.residue = the nodes on a cycle or reachable from one,

  are those that never had their turn.
-/
import LazyFields.Error
import LazyFields.Schema.Basic

namespace LazyFields

/-! ## §1. Graphs. -/

/-- A graph over names; an edge may occur more than once. -/
structure Graph where
  /-- The nodes, in order and without repetition. -/
  nodes : NameSet
  /-- The edges, from a dependency to its dependent. -/
  edges : List (String × String)
  deriving Repr

namespace Graph

/-- The nodes that the edges from a node lead to, one for each edge. -/
def successors (g : Graph) (node : String) : List String :=
  (g.edges.filter fun e => e.1 == node).map Prod.snd

/-- A further edge to the node is counted. -/
def addEdge (degrees : Table Int) (node : String) : Table Int :=
  degrees.insert node ((degrees.get? node).getD 0 + 1)

/-- How many edges lead to each node. -/
def inDegrees (g : Graph) : Table Int :=
  (g.edges.map Prod.snd).foldl addEdge (g.nodes.map fun _ => 0)

/-- An edge to the node is taken off its count; if it was the last one, the
node is ready. -/
def removeEdge (s : Table Int × List String) (node : String) : Table Int × List String :=
  match s.1.get? node with
  | none => s
  | some d => (s.1.insert node (d - 1), if d - 1 = 0 then s.2 ++ [node] else s.2)

/-- An order of the nodes in the making. -/
structure Turns where
  /-- How many edges still lead to each node. -/
  degrees : Table Int
  /-- The nodes that are ready, in the order in which they have their turns. -/
  waiting : List String
  /-- How many nodes have had their turn. -/
  count : Nat

/-- Before the first turn; the nodes that are ready wait in order. -/
def start (g : Graph) : Turns :=
  ⟨g.inDegrees, (g.inDegrees.filter fun _ d => d = 0).keys, 0⟩

/-- One turn: the edges from the node are removed, and the nodes that this
makes ready wait behind the others, in order. -/
def turn (g : Graph) (t : Turns) : Turns :=
  match t.waiting with
  | [] => t
  | node :: rest =>
      let (degrees, ready) := (g.successors node).foldl removeEdge (t.degrees, [])
      ⟨degrees, rest ++ (Table.ofNames ready).keys, t.count + 1⟩

/-- After the given number of turns. -/
def after (g : Graph) : Nat → Turns
  | 0 => g.start
  | n + 1 => g.turn (g.after n)

/-- When no node waits any more; none has two turns. -/
def finish (g : Graph) : Turns := g.after g.nodes.size

/-- The nodes that cannot be ordered. -/
def residue (g : Graph) : List String := (g.finish.degrees.filter fun _ d => 0 < d).keys

end Graph

/-! ## §2. The graph of a schema. -/

/-- The node of a field. -/
def fieldNode (id field : String) : String := id ++ "." ++ field

/-- The node that a reference in the resource `id` names. -/
def refNode (id reference : String) : String :=
  match splitReference reference with
  | (none, field) => fieldNode id field
  | (some _, _) => reference

namespace Schema

/-- The computed fields with the ids of their resources. -/
def computedFields (s : Schema) : List (String × FieldSpec) :=
  s.resources.entries.flatMap fun (id, info) =>
    (info.fields.values.filter fun f => !f.isStatic).map fun f => (id, f)

/-- The dependency graph: static fields and fields of other packs are no
nodes. -/
def graph (s : Schema) : Graph :=
  let nodes := Table.ofNames (s.computedFields.map fun (id, f) => fieldNode id f.name)
  { nodes
    edges := s.computedFields.flatMap fun (id, f) =>
      (f.refs.map (refNode id)).filterMap fun dep =>
        if nodes.contains dep then some (dep, fieldNode id f.name) else none }

/-- Refuse a schema whose computed fields cannot be ordered. -/
def checkAcyclic (s : Schema) : Except Error Unit :=
  if s.graph.finish.count = s.graph.nodes.size then .ok ()
  else .error (.dependencyCycle s.graph.residue)

end Schema

end LazyFields
