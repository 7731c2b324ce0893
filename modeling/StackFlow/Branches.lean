import StackFlow.Graph.Walk

/-!
# Folding branches

Branches that need not be: a decision on a literal goes one way, a branch whose edges all lead to
one vertex goes there, and a decision between two equal vertices that lead to the same place runs
one of them. A decision on a negation becomes a decision on the operand with its edges exchanged.
-/

namespace StackFlow

/-- A straight vertex that does what a branching one does before it branches. -/
def Kind.collapsed? : Kind → Option Kind
  | .decision => some (.single .pop)
  | .exprDecision _ | .random => some (.single .nop)
  | .decisionBlock ops => some (.block (ops ++ [.pop]))
  | .exprDecisionBlock ops _ => some (.block ops)
  | .single _ | .block _ => none

/-- The kind with its test replaced by the operand, if the test is a negation. -/
def Kind.unnegated? : Kind → Option Kind
  | .exprDecision (.not operand) => some (.exprDecision operand)
  | .exprDecisionBlock ops (.not operand) => some (.exprDecisionBlock ops operand)
  | _ => none

/-- The list without the first `times` occurrences of an element. -/
def eraseTimes {α : Type} [DecidableEq α] (element : α) : Nat → List α → List α
  | 0, list => list
  | times + 1, list => eraseTimes element times (list.erase element)

namespace Graph

/-- Makes a branching vertex go straight on to one of its children. -/
def collapse? (graph : Graph) (id : VertexId) (vertex : Vertex) (keep : VertexId) :
    Except GraphError (Option Graph) :=
  match vertex.kind.collapsed? with
  | none => .ok none
  | some kind =>
    let dropped := vertex.children.erase keep
    match dropped.find? (!graph.contains ·) with
    | some child => .error (.unknownVertex child)
    | none =>
      .ok <| some <| graph.mapVertices fun other vertex =>
        let unlinked :=
          { vertex with parents := eraseTimes id (dropped.count other) vertex.parents }
        some (if other = id then { unlinked with kind := kind, children := [keep] } else unlinked)

/-- A decision on a literal goes straight on to the child it selects. -/
def foldConstant? (graph : Graph) (id : VertexId) (vertex : Vertex) :
    Except GraphError (Option Graph) :=
  match vertex.kind.test?.bind Expr.constant?, vertex.children with
  | some value, onTrue :: onFalse :: _ =>
    graph.collapse? id vertex (if value ≠ 0 then onTrue else onFalse)
  | _, _ => .ok none

/-- A decision on a negation becomes a decision on the operand, with its edges exchanged. -/
def foldNegated? (graph : Graph) (id : VertexId) (vertex : Vertex) :
    Except GraphError (Option Graph) :=
  match vertex.kind.unnegated?, vertex.children with
  | none, _ => .ok none
  | some kind, onTrue :: onFalse :: others =>
    .ok <| some <| graph.modify id fun vertex =>
      { vertex with kind := kind, children := onFalse :: onTrue :: others }
  | some _, _ => .error (.shortDecision id)

/-- A branch whose edges all lead to one vertex goes straight there. -/
def foldUniform? (graph : Graph) (id : VertexId) (vertex : Vertex) :
    Except GraphError (Option Graph) :=
  match vertex.kind.isSplit, vertex.children with
  | true, first :: others =>
    if others.all (· = first) then graph.collapse? id vertex first else .ok none
  | _, _ => .ok none

/-- The vertex goes straight on to a vertex and is entered only from another. -/
def isDetour (source : VertexId) (vertex : Vertex) (next : VertexId) : Bool :=
  vertex.parents = [source] && !vertex.kind.isSplit && vertex.children = [next]

/-- The vertex to which two equal vertices lead that are entered only from the given one. -/
def rejoin? (source onTrue onFalse : VertexId) (first second : Vertex) : Option VertexId :=
  match first.children with
  | [next] =>
    if isDetour source first next && isDetour source second next && first.kind = second.kind
      && next ≠ onTrue && next ≠ onFalse then some next
    else none
  | _ => none

/-- Removes the second of two equal vertices that lead to the same place. The first takes over its
positions. -/
def mergeTwins (graph : Graph) (onTrue onFalse next : VertexId) (second : Vertex) : Graph :=
  graph.mapVertices fun other vertex =>
    if other = onFalse then none
    else some { vertex with
      parents := if other = next then vertex.parents.erase onFalse else vertex.parents
      positions :=
        if other = onTrue then Position.merge vertex.positions second.positions
        else vertex.positions }

/-- Folds a decision between two vertices, if they are equal and lead to the same place. -/
def foldTwins? (graph : Graph) (id : VertexId) (vertex : Vertex) (onTrue onFalse : VertexId) :
    Except GraphError (Option Graph) := do
  let first ← graph.vertex onTrue
  let second ← graph.vertex onFalse
  match rejoin? id onTrue onFalse first second with
  | none => .ok none
  | some next =>
    match ← graph.collapse? id vertex onTrue with
    | none => .ok none
    | some collapsed =>
      if collapsed.contains next then .ok (some (collapsed.mergeTwins onTrue onFalse next second))
      else .error (.unknownVertex next)

/-- A decision between two equal vertices that lead to the same place goes straight on to the first
of them. -/
def foldIdentical? (graph : Graph) (id : VertexId) (vertex : Vertex) :
    Except GraphError (Option Graph) :=
  match vertex.kind.isDecision, vertex.children with
  | true, onTrue :: onFalse :: _ =>
    if onTrue = onFalse then .ok none else graph.foldTwins? id vertex onTrue onFalse
  | _, _ => .ok none

/-- A way to fold the branch at a vertex; `none` if it does not apply. -/
abbrev Fold :=
  Graph → VertexId → Vertex → Except GraphError (Option Graph)

/-- The ways to fold a branch, in the order in which they are tried. -/
def folds : List Fold :=
  [foldConstant?, foldNegated?, foldUniform?, foldIdentical?]

/-- Folds the branch at a vertex by the first of the given ways that applies. -/
def foldBy? (graph : Graph) (id : VertexId) (vertex : Vertex) :
    List Fold → Except GraphError (Option Graph)
  | [] => .ok none
  | fold :: others =>
    match fold graph id vertex with
    | .ok none => graph.foldBy? id vertex others
    | result => result

/-- Folds one branch; `none` if there is nothing to fold. -/
def foldAt? (graph : Graph) (id : VertexId) : Except GraphError (Option Graph) :=
  match graph.vertex? id with
  | none => .ok none
  | some vertex => graph.foldBy? id vertex folds

/-- Folds branches at each of the vertices in turn; gives the new graph and the number of branches
folded. -/
def foldEach : Graph → List VertexId → Except GraphError (Graph × Nat)
  | graph, [] => .ok (graph, 0)
  | graph, id :: ids => do
    match ← graph.foldAt? id with
    | none => foldEach graph ids
    | some folded =>
      let (final, count) ← foldEach folded ids
      return (final, count + 1)

/-- Folds every branch that the root reaches once, and drops what the root no longer reaches. -/
def foldBranches (graph : Graph) : Except GraphError (Graph × Nat) := do
  let (folded, count) ← foldEach graph graph.walk
  return (if count = 0 then folded else folded.dropUnreachable, count)

end Graph

end StackFlow
