import StackFlow.Rule.Replacement

/-!
# Splicing

Putting a replacement in the place of a chain. What led to the head of the chain leads to the head
of the replacement, and the replacement leads where the chain led, edge by edge, so that branches
keep their meaning.

If other vertices run into the middle of the chain, the end of the chain is first copied onto a path
of its own, and the others keep the end that they had.
-/

namespace StackFlow

/-- The handle, or another one in the place of a given one. -/
def VertexId.redirect (old new id : VertexId) : VertexId :=
  if id = old then new else id

/-- Vertices linked one to the next. They are to get the handles from `start` on; the first has the
given predecessors and the last the given successors. -/
def linked (start : Nat) (incoming outgoing : List VertexId) : List Node → List Vertex
  | [] => []
  | [node] => [{ node with children := outgoing, parents := incoming }]
  | node :: next :: nodes =>
    { node with children := [⟨start + 1⟩], parents := incoming }
      :: linked (start + 1) [⟨start⟩] outgoing (next :: nodes)

namespace Graph

/-- The predecessors of a vertex; none for a handle without a vertex. -/
def parents (graph : Graph) (id : VertexId) : List VertexId :=
  match graph.vertex? id with
  | some vertex => vertex.parents
  | none => []

/-- Fails with the first handle that does not have the property. -/
def requireAll (alive : VertexId → Bool) (ids : List VertexId) : Except GraphError Unit :=
  match ids.find? (!alive ·) with
  | some id => .error (.unknownVertex id)
  | none => .ok ()

/-- Copies the shared end of a chain onto a path of its own and gives the handles of the chain that
results. -/
def extract (graph : Graph) (chain : Chain) : Except GraphError (Graph × List VertexId) :=
  match chain.shared with
  | [] => .ok (graph, chain.ids)
  | first :: others => do
    let anchor := chain.privateIds.getLastD chain.head.id
    let start := graph.slots.size
    let tail : VertexId := ⟨start + others.length⟩
    let nodes := (first :: others).map (·.vertex.toNode)
    let extended := graph.append (linked start [anchor] chain.exits nodes)
    requireAll extended.contains chain.exits
    let edited := extended.mapVertices fun id vertex =>
      some { vertex with
        children :=
          if id = anchor then vertex.children.map (VertexId.redirect first.id ⟨start⟩)
          else vertex.children
        parents := (if id = first.id then vertex.parents.erase anchor else vertex.parents)
          ++ List.replicate (chain.exits.count id) tail }
    return (edited,
      chain.privateIds ++ (List.range nodes.length).map fun offset => ⟨start + offset⟩)

/-- Removes a chain and leads everything that led to it straight to its exit. -/
def bypass (graph : Graph) (ids : List VertexId) (head tail exit : VertexId) :
    Except GraphError Graph := do
  let outer := (graph.parents head).filter (· ≠ tail)
  requireAll (fun id => graph.contains id && id ∉ ids) (outer ++ [exit])
  let edited := graph.mapVertices fun id vertex =>
    if id ∈ ids then none
    else some { vertex with
      children :=
        if id ∈ outer then vertex.children.map (VertexId.redirect head exit) else vertex.children
      parents := if id = exit then vertex.parents.filter (· ≠ tail) ++ outer else vertex.parents }
  return { edited with root := graph.root.map (VertexId.redirect head exit) }

/-- Removes a chain and puts a run of vertices in its place. -/
def substituteChain (graph : Graph) (ids : List VertexId) (head tail : VertexId)
    (nodes : List Node) : Except GraphError Graph := do
  let outer := (graph.parents head).filter (· ≠ tail)
  let exits := graph.children tail
  let start := graph.slots.size
  let newHead : VertexId := ⟨start⟩
  let newTail : VertexId := ⟨start + (nodes.length - 1)⟩
  let incoming := outer ++ List.replicate (exits.count head) newTail
  let outgoing := exits.map (VertexId.redirect head newHead)
  let extended := graph.append (linked start incoming outgoing nodes)
  requireAll (fun id => extended.contains id && id ∉ ids) (outer ++ exits.filter (· ≠ head))
  let edited := extended.mapVertices fun id vertex =>
    if id ∈ ids then none
    else some { vertex with
      children :=
        if id ∈ outer then vertex.children.map (VertexId.redirect head newHead) else vertex.children
      parents :=
        if id ∈ exits then vertex.parents.map (VertexId.redirect tail newTail) else vertex.parents }
  return { edited with root := graph.root.map (VertexId.redirect head newHead) }

/-- Puts a replacement in the place of a chain. -/
def splice (graph : Graph) (chain : Chain) (replacement : Replacement) :
    Except GraphError Graph := do
  let (extracted, ids) ← graph.extract chain
  let head := chain.head.id
  let tail := ids.getLastD head
  match replacement with
  | .bypass exit => extracted.bypass ids head tail exit
  | .nodes first rest => extracted.substituteChain ids head tail (first :: rest)

end Graph

end StackFlow
