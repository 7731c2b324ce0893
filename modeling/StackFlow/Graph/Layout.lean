import StackFlow.Dialect.Listing
import StackFlow.Graph.Walk

/-!
# Layout

A layout puts the vertices that the root reaches in a line. A vertex with a single way on stands
right before its child whenever the child has not been placed yet, so that a straight run needs no
jumps. A vertex that branches names all its targets and never runs into the next one.
-/

namespace StackFlow

/-- The vertices of a program in the order in which they are written. -/
structure Layout where
  order : List VertexId
deriving DecidableEq

namespace Layout

/-- The number of vertices placed. -/
def size (layout : Layout) : Nat :=
  layout.order.length

/-- Nothing is placed. -/
def isEmpty (layout : Layout) : Bool :=
  layout.order.isEmpty

/-- Where the vertex stands. -/
def index? (layout : Layout) (id : VertexId) : Option Nat :=
  layout.order.idxOf? id

/-- Where the children of a vertex stand, in the order of its edges. -/
def targets (layout : Layout) (graph : Graph) (id : VertexId) : Except GraphError (List Nat) := do
  (← graph.vertex id).children.mapM fun child =>
    match layout.index? child with
    | some index => .ok index
    | none => .error (.unreachable child)

/-- The vertex at the position goes on to the next position. -/
def runsOn (layout : Layout) (graph : Graph) (position : Nat) : Bool :=
  match layout.order[position]?.bind graph.vertex? with
  | none => false
  | some vertex =>
    match vertex.kind.isSplit, vertex.children with
    | false, [child] => layout.index? child = some (position + 1)
    | _, _ => false

end Layout

namespace Graph

/-- The children that a layout places after a vertex. A vertex that does not branch has one way
on. -/
def onward (graph : Graph) (id : VertexId) : List VertexId :=
  match graph.vertex? id with
  | none => []
  | some vertex => if vertex.kind.isSplit then vertex.children else vertex.children.take 1

/-- The edges that a layout follows. -/
def onwardEdges (graph : Graph) : Digraph VertexId where
  next := graph.onward
  support := graph.ids
  next_eq_nil id absent := by
    rw [mem_ids, Bool.not_eq_true, contains, Option.isSome_eq_false_iff,
      Option.isNone_iff_eq_none] at absent
    simp [onward, absent]

/-- Lays out what the root reaches. -/
def layout (graph : Graph) : Except GraphError Layout :=
  match graph.root with
  | none => .error .missingRoot
  | some root =>
    let order := graph.onwardEdges.search .depthFirst [root]
    match order.find? (!graph.contains ·) with
    | some id => .error (.unknownVertex id)
    | none => .ok ⟨order⟩

/-- One vertex as the dialect writes it at its position, with the jump or the end that may have to
follow. -/
def renderAt (graph : Graph) (dialect : Dialect) (layout : Layout) (position : Nat)
    (id : VertexId) : Except GraphError String := do
  let vertex ← graph.vertex id
  let targets ← layout.targets graph id
  match vertex.kind.render? dialect targets with
  | none => .error (.childCount id vertex.kind.name (vertex.kind.arity?.getD 1) targets.length)
  | some code =>
    match vertex.kind.isSplit, targets with
    | false, [] => .ok (code ++ "\n" ++ dialect.exit)
    | false, [next] => .ok (if next = position + 1 then code else code ++ "\n" ++ dialect.jump next)
    | _, _ => .ok code

/-- The program as the dialect writes it, one piece for each vertex. -/
def render (graph : Graph) (dialect : Dialect) : Except GraphError (List String) := do
  let layout ← graph.layout
  layout.order.zipIdx.mapM fun (id, position) => graph.renderAt dialect layout position id

/-- One line of a numbered listing. Numbers are aligned to four columns, and line breaks become
semicolons. -/
def listingLine (position : Nat) (code : String) : String :=
  let number := position.repr
  let indent := String.ofList (List.replicate (4 - number.length) ' ')
  indent ++ number ++ ": " ++ "; ".intercalate (code.splitOn "\n")

/-- A numbered listing of the program. -/
def listing (graph : Graph) : Except GraphError String := do
  let pieces ← graph.render Dialect.listing
  return "\n".intercalate (pieces.zipIdx.map fun (code, position) => listingLine position code)

end Graph

end StackFlow
