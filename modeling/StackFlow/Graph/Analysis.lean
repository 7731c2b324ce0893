import StackFlow.Graph.Basic

/-!
# Facts about the whole graph

What the vertices of a graph use, taken together.
-/

namespace StackFlow

namespace Graph

/-- The kinds of all vertices in the order of their handles. -/
def kinds (graph : Graph) : List Kind :=
  graph.vertices.map (·.2.kind)

/-- The variables that occur, in increasing order. -/
def usedVariables (graph : Graph) : List VarId :=
  (graph.kinds.flatMap Kind.vars).eraseDups.mergeSort fun first second => first.index ≤ second.index

/-- The targets of branches, each once. -/
def branchTargets (graph : Graph) : List VertexId :=
  (graph.vertices.flatMap fun (_, vertex) =>
    if vertex.kind.isSplit then vertex.children else []).eraseDups

/-- The cells that are accessed with literal coordinates, each once. -/
def constantCells (graph : Graph) : List (Word × Word) :=
  (graph.kinds.flatMap Kind.constantCells).eraseDups

/-- The accesses whose coordinates are not both literals, each once. -/
def dynamicAccesses (graph : Graph) : List MemoryAccess :=
  (graph.kinds.flatMap Kind.dynamicAccesses).eraseDups

/-- What the program touches. -/
def effects (graph : Graph) : Effects :=
  Effects.unionAll (graph.kinds.map Kind.effects)

end Graph

end StackFlow
