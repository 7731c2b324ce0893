import StackFlow.Op
import StackFlow.Position

/-!
# Vertices

A vertex of the control-flow graph runs some ops and then leaves through one of its edges. Its
`Kind` says which ops and which way of leaving. Together with the source positions the kind forms a
`Node`; a `Vertex` is a node with edges.

The edges of a decision are told apart by position: the first is taken when the tested value is
nonzero, the second when it is zero.
-/

namespace StackFlow

/-- Handle of a vertex in its graph. -/
structure VertexId where
  /-- The slot that holds the vertex. -/
  index : Nat
deriving DecidableEq

/-- Handles are written `#0`, `#1`, and so on. -/
def VertexId.text (id : VertexId) : String :=
  "#" ++ id.index.repr

/-- What a vertex does. -/
inductive Kind where
  /-- A single op. -/
  | single (op : Op)
  /-- A fused run of ops. -/
  | block (ops : List Op)
  /-- Pops a value and branches on it. -/
  | decision
  /-- Branches on an expression. -/
  | exprDecision (test : Expr)
  /-- A run of ops, then a branch on a popped value. -/
  | decisionBlock (ops : List Op)
  /-- A run of ops, then a branch on an expression. -/
  | exprDecisionBlock (ops : List Op) (test : Expr)
  /-- Picks one of four successors at random. -/
  | random
deriving DecidableEq

/-- How a vertex chooses the edge it leaves by. -/
inductive Exit where
  /-- By its only edge, or by none. -/
  | next
  /-- By the value it pops. -/
  | popped
  /-- By the value of an expression. -/
  | tested (test : Expr)
  /-- At random. -/
  | random
deriving DecidableEq

namespace Exit

/-- The number of edges a branching exit must have. -/
def arity? : Exit → Option Nat
  | .next => none
  | .popped | .tested _ => some 2
  | .random => some 4

/-- What the choice of the edge touches. -/
def effects : Exit → Effects
  | .next => {}
  | .popped => { stack := true }
  | .tested test => test.effects
  | .random => { random := true }

/-- The exit as the dialect writes it, given the positions of its targets; `none` if their number is
wrong. -/
def render? (dialect : Dialect) : Exit → List Nat → Option (List String)
  | .next, _ => some []
  | .popped, [onTrue, onFalse] => some [dialect.decision onTrue onFalse]
  | .tested test, [onTrue, onFalse] =>
    some [dialect.exprDecision (test.render dialect.toExprDialect) onTrue onFalse]
  | .random, [first, second, third, fourth] => some [dialect.random [first, second, third, fourth]]
  | _, _ => none

end Exit

namespace Kind

/-- The name used in messages. -/
def name : Kind → String
  | .single op => op.name
  | .block _ => "Block"
  | .decision => "Decision"
  | .exprDecision _ => "ExprDecision"
  | .decisionBlock _ => "DecisionBlock"
  | .exprDecisionBlock _ _ => "ExprDecisionBlock"
  | .random => "Random"

/-- The ops that run before the exit is chosen. -/
def ops : Kind → List Op
  | .single op => [op]
  | .block ops | .decisionBlock ops | .exprDecisionBlock ops _ => ops
  | .decision | .exprDecision _ | .random => []

/-- How the exit is chosen once the ops have run. -/
def exit : Kind → Exit
  | .single _ | .block _ => .next
  | .decision | .decisionBlock _ => .popped
  | .exprDecision test | .exprDecisionBlock _ test => .tested test
  | .random => .random

/-- The op of a vertex that is nothing but one op. -/
def op? : Kind → Option Op
  | .single op => some op
  | _ => none

/-- The vertex only passes control on. -/
def isNop (kind : Kind) : Bool :=
  kind = .single .nop

/-- The number of children a branching vertex must have. -/
def arity? (kind : Kind) : Option Nat :=
  kind.exit.arity?

/-- The vertex branches. -/
def isSplit (kind : Kind) : Bool :=
  kind.arity?.isSome

/-- The vertex was fused from several. -/
def isBlock : Kind → Bool
  | .block _ | .decisionBlock _ | .exprDecisionBlock _ _ => true
  | .single _ | .decision | .exprDecision _ | .random => false

/-- The vertex branches on a value. -/
def isDecision (kind : Kind) : Bool :=
  match kind.exit with
  | .popped | .tested _ => true
  | .next | .random => false

/-- The expression the vertex branches on. -/
def test? (kind : Kind) : Option Expr :=
  match kind.exit with
  | .tested test => some test
  | .next | .popped | .random => none

/-- The vertex pops the value it branches on. -/
def popsTest (kind : Kind) : Bool :=
  kind.exit = .popped

/-- Changes every op and the expression of the test. -/
def map (changeOp : Op → Op) (changeTest : Expr → Expr) : Kind → Kind
  | .single op => .single (changeOp op)
  | .block ops => .block (ops.map changeOp)
  | .decision => .decision
  | .exprDecision test => .exprDecision (changeTest test)
  | .decisionBlock ops => .decisionBlock (ops.map changeOp)
  | .exprDecisionBlock ops test => .exprDecisionBlock (ops.map changeOp) (changeTest test)
  | .random => .random

/-- Every expression of the ops and of the test. -/
def expressions (kind : Kind) : List Expr :=
  kind.ops.flatMap Op.expressions ++ kind.test?.toList

/-- Replaces every outermost node that satisfies the predicate, in all expressions of the vertex. -/
def substitute (pred : Expr → Bool) (replace : Expr → Expr) (kind : Kind) : Kind :=
  kind.map (Op.mapExpressions (Expr.substitute pred replace)) (Expr.substitute pred replace)

/-- The change in depth of a stack that is deep enough. -/
def delta (kind : Kind) : Int :=
  kind.ops.foldl (fun total op => total + op.delta) 0 - if kind.popsTest then 1 else 0

/-- The depth after the ops of the vertex, before the exit is chosen. -/
def depthAfterOps (kind : Kind) (depth : Nat) : Nat :=
  kind.ops.foldl (fun current op => op.depthAfter current) depth

/-- The depth after the vertex has run. -/
def depthAfter (kind : Kind) (depth : Nat) : Nat :=
  kind.depthAfterOps depth - if kind.popsTest then 1 else 0

/-- The greatest depth on the way through a run of ops, the start included. -/
def peakOf : List Op → Nat → Nat
  | [], depth => depth
  | op :: ops, depth => max depth (peakOf ops (op.depthAfter depth))

/-- The greatest depth on the way through the vertex. -/
def peak (kind : Kind) (depth : Nat) : Nat :=
  peakOf kind.ops depth

/-- What the vertex touches. -/
def effects (kind : Kind) : Effects :=
  Effects.unionAll (kind.ops.map Op.effects) ∪ kind.exit.effects

/-- Every grid access, in the order in which it is written down. -/
def memoryAccesses (kind : Kind) : List MemoryAccess :=
  kind.ops.flatMap Op.memoryAccesses ++ kind.test?.toList.flatMap Expr.memoryReads

/-- The cells accessed with literal coordinates, once for each access. -/
def constantCells (kind : Kind) : List (Word × Word) :=
  kind.memoryAccesses.filterMap MemoryAccess.cell?

/-- The accesses whose coordinates are not both literals. -/
def dynamicAccesses (kind : Kind) : List MemoryAccess :=
  kind.memoryAccesses.filter (!·.isConstant)

/-- Every variable read or written, each once, by first occurrence. -/
def vars (kind : Kind) : List VarId :=
  (kind.ops.flatMap Op.vars ++ kind.test?.toList.flatMap Expr.vars).eraseDups

/-- The vertex as the dialect writes it, given the positions of its targets; `none` if a branch has
a wrong number of them. -/
def render? (dialect : Dialect) (kind : Kind) (targets : List Nat) : Option String :=
  (kind.exit.render? dialect targets).map fun branch =>
    let lines := kind.ops.map (Op.render dialect) ++ branch
    if kind.isBlock then dialect.block lines else "\n".intercalate lines

end Kind

/-- A vertex taken out of its graph. -/
structure Node where
  kind : Kind
  /-- The grid cells it was read from, several after fusion. -/
  positions : List Position := []
  /-- The direction in which it was read. -/
  direction : Direction := .right
deriving DecidableEq

/-- A vertex of the graph. -/
structure Vertex extends Node where
  /-- Successors, in an order that matters for branches. -/
  children : List VertexId := []
  /-- Predecessors, once for each incoming edge. -/
  parents : List VertexId := []
deriving DecidableEq

namespace Vertex

/-- A vertex without edges. -/
def ofNode (node : Node) : Vertex where
  toNode := node

/-- The vertex has no edges, so that nothing is lost by taking it out of its graph. -/
def isDetached (vertex : Vertex) : Bool :=
  vertex = ofNode vertex.toNode

/-- The edge a decision takes for a nonzero value. -/
def onTrue? (vertex : Vertex) : Option VertexId :=
  if vertex.kind.isDecision then vertex.children[0]? else none

/-- The edge a decision takes for zero. -/
def onFalse? (vertex : Vertex) : Option VertexId :=
  if vertex.kind.isDecision then vertex.children[1]? else none

end Vertex

end StackFlow
