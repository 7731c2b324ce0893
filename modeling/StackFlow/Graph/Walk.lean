import StackFlow.Digraph
import StackFlow.Graph.Basic

/-!
# Walking the graph

The vertices that the root reaches, the cycles, and what is lost with the vertices that the root
does not reach.
-/

namespace StackFlow

namespace Graph

/-- The edges of the graph. -/
def edges (graph : Graph) : Digraph VertexId where
  next := graph.children
  support := graph.ids
  next_eq_nil id absent := by
    rw [mem_ids, Bool.not_eq_true] at absent
    exact children_eq_nil absent

/-- What the root reaches, nearest first. -/
def walk (graph : Graph) : List VertexId :=
  graph.edges.search .breadthFirst graph.root.toList

/-- A path of at least one edge leads from the vertex to itself. -/
def onCycle (graph : Graph) (id : VertexId) : Bool :=
  id ∈ graph.edges.search .depthFirst (graph.children id)

/-- The vertices that the root does not reach. -/
def unreachable (graph : Graph) : List VertexId :=
  let reached := graph.walk
  graph.ids.filter (· ∉ reached)

/-- Removes the vertices that the root does not reach, together with the edges that leave them. -/
def dropUnreachable (graph : Graph) : Graph :=
  let lost := graph.unreachable
  graph.mapVertices fun id vertex =>
    if id ∈ lost then none
    else some { vertex with
      parents :=
        vertex.parents.filter fun parent => !(parent ∈ lost && id ∈ graph.children parent) }

/-- Removes one vertex together with the edges that leave it. -/
def detach (graph : Graph) (id : VertexId) : Graph :=
  let targets := graph.children id
  graph.mapVertices fun other vertex =>
    if other = id then none
    else some { vertex with
      parents := if other ∈ targets then vertex.parents.filter (· ≠ id) else vertex.parents }

/-- Removes the vertices that the root does not reach, one after the other; tells whether there were
any. -/
def prune (graph : Graph) : Graph × Bool :=
  let lost := graph.unreachable
  (lost.foldl detach graph, !lost.isEmpty)

end Graph

end StackFlow
