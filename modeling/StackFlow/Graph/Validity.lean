import StackFlow.Graph.Walk

/-!
# Validity

A graph is valid if it has a root, every edge is recorded at both of its ends, every vertex has a
number of children that its kind allows, the root reaches every vertex, and at most one vertex has
no predecessor. `Valid` states the rules, except for the last one, which follows from the others.
`defect?` looks for the first rule that is broken.
-/

namespace StackFlow

namespace Graph

/-- The rules of a graph. -/
structure Valid (graph : Graph) : Prop where
  /-- The root is a vertex and reaches every other. -/
  rooted : ∃ root, graph.root = some root ∧ graph.contains root = true ∧
    ∀ id, graph.contains id = true → graph.edges.Reaches root id
  /-- Every successor of a vertex is a vertex. -/
  children_live : ∀ {id vertex child}, graph.vertex? id = some vertex → child ∈ vertex.children →
    graph.contains child = true
  /-- Every predecessor of a vertex is a vertex. -/
  parents_live : ∀ {id vertex parent}, graph.vertex? id = some vertex → parent ∈ vertex.parents →
    graph.contains parent = true
  /-- Two vertices agree on the number of edges from one to the other. -/
  edges_agree : ∀ {source target first second}, graph.vertex? source = some first →
    graph.vertex? target = some second →
    first.children.count target = second.parents.count source
  /-- A branch has as many edges as its kind demands. -/
  branches : ∀ {id vertex arity}, graph.vertex? id = some vertex → vertex.kind.arity? = some arity →
    vertex.children.length = arity
  /-- Any other vertex has at most one edge. -/
  straight : ∀ {id vertex}, graph.vertex? id = some vertex → vertex.kind.arity? = none →
    vertex.children.length ≤ 1

/-- The neighbour is missing, or it counts the edges between the two differently. -/
def edgeDefect? (graph : Graph) (id neighbour : VertexId) (own : List VertexId)
    (opposite : Vertex → List VertexId) : Option GraphError :=
  match graph.vertex? neighbour with
  | none => some (.unknownVertex neighbour)
  | some vertex =>
    if own.count neighbour = (opposite vertex).count id then none
    else some (.asymmetricEdges id neighbour)

/-- The number of children is not one the kind allows. -/
def arityDefect? (id : VertexId) (vertex : Vertex) : Option GraphError :=
  let found := vertex.children.length
  match vertex.kind.arity? with
  | some expected =>
    if found = expected then none else some (.childCount id vertex.kind.name expected found)
  | none => if found ≤ 1 then none else some (.childCount id vertex.kind.name 1 found)

/-- The first rule that one vertex breaks. -/
def vertexDefect? (graph : Graph) (id : VertexId) (vertex : Vertex) : Option GraphError :=
  (vertex.children.findSome? fun child => graph.edgeDefect? id child vertex.children Vertex.parents)
    <|> (vertex.parents.findSome? fun parent =>
      graph.edgeDefect? id parent vertex.parents Vertex.children)
    <|> arityDefect? id vertex

/-- The root is missing. -/
def rootDefect? (graph : Graph) : Option GraphError :=
  match graph.root with
  | none => some .missingRoot
  | some root => if graph.contains root then none else some (.unknownVertex root)

/-- The root does not reach some vertex. -/
def reachDefect? (graph : Graph) : Option GraphError :=
  graph.unreachable.head?.map .unreachable

/-- Two vertices have no predecessor. -/
def orphanDefect? (graph : Graph) : Option GraphError :=
  match graph.vertices.filter (·.2.parents.isEmpty) with
  | (first, _) :: (second, _) :: _ => some (.multipleRoots first second)
  | _ => none

/-- The first rule that the graph breaks. -/
def defect? (graph : Graph) : Option GraphError :=
  graph.rootDefect?
    <|> (graph.vertices.findSome? fun (id, vertex) => graph.vertexDefect? id vertex)
    <|> graph.reachDefect?
    <|> graph.orphanDefect?

/-- Fails with the first rule that the graph breaks. -/
def validate (graph : Graph) : Except GraphError Unit :=
  match graph.defect? with
  | none => .ok ()
  | some error => .error error

end Graph

end StackFlow
