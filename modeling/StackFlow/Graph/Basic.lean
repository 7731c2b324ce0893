import StackFlow.Error
import StackFlow.Grid

/-!
# The program graph

A graph holds its vertices in slots. A handle is the number of a slot, slots are never used twice,
and removing a vertex leaves its slot empty, so a handle never comes to mean another vertex. Beside
the vertices the graph carries what a code generator needs: the memory grid as it is before the
program runs, and the variables.

The view of a graph is `vertex?`. Each operation below comes with a lemma that says what it does to
the view.
-/

namespace StackFlow

/-- A declared variable. -/
structure Variable where
  /-- The value before the first op runs. -/
  initial : Word
  /-- The optimizer made the variable. -/
  synthesized : Bool
deriving DecidableEq

/-- A control-flow graph with the data of its program. -/
structure Graph where
  /-- The vertices by handle; `none` marks a removed one. -/
  slots : Array (Option Vertex)
  /-- Where the program starts. -/
  root : Option VertexId
  /-- The grid before the program runs. -/
  grid : Grid
  /-- The variables by handle. -/
  vars : Array Variable
deriving DecidableEq

namespace Graph

/-- A graph without vertices, for a grid of empty cells. -/
def blank (width height : Nat) : Graph where
  slots := #[]
  root := none
  grid := .blank width height
  vars := #[]

/-- Sets the first contents of the grid, row by row. -/
def fillGrid (graph : Graph) (cells : List Word) : Except GraphError Graph :=
  match graph.grid.refill? cells with
  | some grid => .ok { graph with grid := grid }
  | none => .error (.memorySize cells.length graph.grid.width graph.grid.height)

/-- The vertex of a handle. -/
def vertex? (graph : Graph) (id : VertexId) : Option Vertex :=
  graph.slots.getD id.index none

/-- The vertex of a handle that is expected to have one. -/
def vertex (graph : Graph) (id : VertexId) : Except GraphError Vertex :=
  match graph.vertex? id with
  | some vertex => .ok vertex
  | none => .error (.unknownVertex id)

/-- The handle refers to a vertex. -/
def contains (graph : Graph) (id : VertexId) : Bool :=
  (graph.vertex? id).isSome

/-- The handles of all vertices in increasing order. -/
def ids (graph : Graph) : List VertexId :=
  ((List.range graph.slots.size).map VertexId.mk).filter graph.contains

/-- All vertices with their handles, in the order of the handles. -/
def vertices (graph : Graph) : List (VertexId × Vertex) :=
  graph.ids.filterMap fun id => (graph.vertex? id).map (id, ·)

/-- The number of vertices. -/
def size (graph : Graph) : Nat :=
  graph.ids.length

/-- The graph has no vertices. -/
def isEmpty (graph : Graph) : Bool :=
  graph.size = 0

/-- The successors of a vertex; none for a handle without a vertex. -/
def children (graph : Graph) (id : VertexId) : List VertexId :=
  match graph.vertex? id with
  | some vertex => vertex.children
  | none => []

/-- The handle that the next vertex will get. -/
def nextId (graph : Graph) : VertexId :=
  ⟨graph.slots.size⟩

/-- Adds vertices, which get the next handles in turn. -/
def append (graph : Graph) (vertices : List Vertex) : Graph :=
  { graph with slots := graph.slots ++ (vertices.map some).toArray }

/-- Adds one vertex under the handle `nextId`. -/
def add (graph : Graph) (vertex : Vertex) : Graph :=
  graph.append [vertex]

/-- Changes or removes every vertex. -/
def mapVertices (graph : Graph) (change : VertexId → Vertex → Option Vertex) : Graph :=
  { graph with slots := graph.slots.mapIdx fun index slot => slot.bind (change ⟨index⟩) }

/-- Changes one vertex, if the handle has one. -/
def modify (graph : Graph) (id : VertexId) (change : Vertex → Vertex) : Graph :=
  graph.mapVertices fun other vertex => some (if other = id then change vertex else vertex)

/-- Adds an edge. -/
def connect (graph : Graph) (source target : VertexId) : Except GraphError Graph :=
  if !graph.contains target then .error (.unknownVertex target)
  else if !graph.contains source then .error (.unknownVertex source)
  else
    .ok <| (graph.modify source fun vertex =>
      { vertex with children := vertex.children ++ [target] }).modify target fun vertex =>
        { vertex with parents := vertex.parents ++ [source] }

/-- Makes the program start at a vertex. -/
def setRoot (graph : Graph) (id : VertexId) : Except GraphError Graph :=
  if graph.contains id then .ok { graph with root := some id } else .error (.unknownVertex id)

/-- The handle that the next variable will get. -/
def nextVar (graph : Graph) : VarId :=
  ⟨graph.vars.size⟩

/-- Declares variables, which get the next handles in turn. -/
def declare (graph : Graph) (declarations : List Variable) : Graph :=
  { graph with vars := graph.vars ++ declarations.toArray }

theorem contains_iff {graph : Graph} {id : VertexId} :
    graph.contains id = true ↔ ∃ vertex, graph.vertex? id = some vertex := by
  simp [contains, Option.isSome_iff_exists]

theorem vertex?_eq_none_of_size_le {graph : Graph} {id : VertexId}
    (outside : graph.slots.size ≤ id.index) : graph.vertex? id = none := by
  simp [vertex?, outside]

/-- The handles listed are those that have a vertex. -/
theorem mem_ids {graph : Graph} {id : VertexId} : id ∈ graph.ids ↔ graph.contains id = true := by
  simp only [ids, List.mem_filter, List.mem_map, List.mem_range]
  constructor
  · exact fun found => found.2
  · intro found
    refine ⟨⟨id.index, ?_, rfl⟩, found⟩
    apply Nat.lt_of_not_le
    intro outside
    simp [contains, vertex?_eq_none_of_size_le outside] at found

theorem mem_vertices {graph : Graph} {id : VertexId} {vertex : Vertex} :
    (id, vertex) ∈ graph.vertices ↔ graph.vertex? id = some vertex := by
  simp only [vertices, List.mem_filterMap, mem_ids, contains_iff]
  constructor
  · rintro ⟨other, -, found⟩
    cases view : graph.vertex? other with
    | none => simp [view] at found
    | some vertex =>
      simp only [view, Option.map_some, Option.some.injEq, Prod.mk.injEq] at found
      rw [← found.1, ← found.2, view]
  · intro found
    exact ⟨id, ⟨vertex, found⟩, by simp [found]⟩

/-- A map over the vertices acts on the view handle by handle. -/
@[simp]
theorem vertex?_mapVertices (graph : Graph) (change : VertexId → Vertex → Option Vertex)
    (id : VertexId) :
    (graph.mapVertices change).vertex? id = (graph.vertex? id).bind (change id) := by
  unfold vertex? mapVertices
  by_cases inside : id.index < graph.slots.size <;> simp [Array.getD, inside]

/-- Changing one vertex changes the view at its handle only. -/
theorem vertex?_modify (graph : Graph) (id other : VertexId) (change : Vertex → Vertex) :
    (graph.modify id change).vertex? other =
      if other = id then (graph.vertex? id).map change else graph.vertex? other := by
  simp only [modify, vertex?_mapVertices]
  by_cases same : other = id
  · subst same
    cases graph.vertex? other <;> simp
  · cases graph.vertex? other <;> simp [same]

/-- Added vertices appear under the next handles, and all else stays. -/
theorem vertex?_append (graph : Graph) (vertices : List Vertex) (id : VertexId) :
    (graph.append vertices).vertex? id =
      if id.index < graph.slots.size then graph.vertex? id
      else vertices[id.index - graph.slots.size]? := by
  unfold vertex? append
  by_cases inside : id.index < graph.slots.size
  · simp [Array.getD, inside, Nat.lt_add_right, Array.getElem_append_left]
  · rw [if_neg inside]
    simp only [Array.getD_eq_getD_getElem?]
    rw [Array.getElem?_append_right (Nat.le_of_not_lt inside)]
    simp only [List.getElem?_toArray, List.getElem?_map]
    cases vertices[id.index - graph.slots.size]? <;> simp

/-- A handle without a vertex has no successors. -/
theorem children_eq_nil {graph : Graph} {id : VertexId} (dead : graph.contains id = false) :
    graph.children id = [] := by
  simp only [contains, Option.isSome_eq_false_iff, Option.isNone_iff_eq_none] at dead
  simp [children, dead]

end Graph

end StackFlow
