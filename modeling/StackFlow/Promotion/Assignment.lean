import StackFlow.Promotion.Analysis

/-!
# Moving values to variables

Every value that can leave the stack gets a variable of its own. Ops that push it assign the
variable, ops that pop it read the variable, and expressions that see it on top of the stack read
the variable too. The stack then holds just the other values, in the same order as before.
-/

namespace StackFlow.Promotion

/-- The first use of each site, and the variables of the values that have one. -/
structure Assignment where
  use? : Site → Option Use
  var? : Value → Option VarId

namespace Assignment

/-- The expression with the variable of the value on top in the place of the top. -/
def expr (assignment : Assignment) (use : Use) (expr : Expr) : Expr :=
  match use.peeked.bind assignment.var? with
  | some var => expr.substitute Expr.isPeek fun _ => .var var
  | none => expr

/-- The variables of values that live either all in variables or all on the stack, which is
`none`. -/
def allOrNone (assignment : Assignment) (site : Site) (op : Op) (values : List Value) :
    Except GraphError (Option (List VarId)) :=
  match values.mapM assignment.var? with
  | some vars => .ok (some vars)
  | none =>
    if values.all fun value => (assignment.var? value).isNone then .ok none
    else .error (.partialPromotion site.vertex (.mixedOperands op.name))

/-- The expression that an op computes from operands in variables, top first. -/
def result? : Op → List VarId → Option Expr
  | .math op, [rhs, lhs] => some (.combine op (.var lhs) (.var rhs))
  | .not, [operand] => some (Expr.negation (.var operand))
  | .get, [y, x] => some (.memory (.var x) (.var y))
  | _, _ => none

/-- An op that computes with its operands. -/
def compute (assignment : Assignment) (site : Site) (op : Op) (use : Use) :
    Except GraphError Op := do
  let result := assignment.var? (.pushed site)
  match ← assignment.allOrNone site op use.inputs, result with
  | none, none => return op
  | none, some _ => throw (.partialPromotion site.vertex (.resultOnly op.name))
  | some vars, _ =>
    match op, vars with
    | .set, [y, x, value] => return .store (.var x) (.var y) (.var value)
    | _, _ =>
      match result, result? op vars with
      | some var, some value => return .assign var value
      | _, _ => throw (.partialPromotion site.vertex (.operandsOnly op.name))

/-- The op in the place of one whose values may have moved to variables. -/
def op (assignment : Assignment) (site : Site) (op : Op) : Except GraphError Op :=
  match assignment.use? site with
  | none => .ok op
  | some use =>
    let input := use.inputs.head?.bind assignment.var?
    let result := assignment.var? (.pushed site)
    let expr := assignment.expr use
    match op with
    | .pop => .ok (if input.isSome then .nop else op)
    | .varSet target => .ok (input.elim op fun var => .assign target (.var var))
    | .output format => .ok (input.elim op fun var => .print (.var var) format)
    | .swap => do
      match ← assignment.allOrNone site op use.inputs with
      | some _ => return .nop
      | none => return op
    | .dup =>
      match input, result with
      | some source, some copy => .ok (.assign copy (.var source))
      | none, none => .ok op
      | _, _ => .error (.partialPromotion site.vertex .mixedCopy)
    | .math _ | .not | .get | .set => assignment.compute site op use
    | .push value => .ok (result.elim (.push (expr value)) fun var => .assign var (expr value))
    | .load x y =>
      .ok (result.elim (.load (expr x) (expr y)) fun var => .assign var (.memory (expr x) (expr y)))
    | .varGet source => .ok (result.elim op fun var => .assign var (.var source))
    | .input format => .ok (result.elim op fun var => .inputVar var format)
    | .store x y value => .ok (.store (expr x) (expr y) (expr value))
    | .assign var value => .ok (.assign var (expr value))
    | .print value format => .ok (.print (expr value) format)
    | .nop | .printText _ | .inputVar _ _ => .ok op

/-- The ops of a vertex, the first of which has the given index. -/
def ops (assignment : Assignment) (id : VertexId) : Nat → List Op → Except GraphError (List Op)
  | _, [] => .ok []
  | index, op :: ops => do
    return (← assignment.op ⟨id, index⟩ op) :: (← assignment.ops id (index + 1) ops)

/-- The variable that a decision on a popped value pops. -/
def popped? (assignment : Assignment) (site : Site) : Option VarId :=
  (assignment.use? site).bind fun use => use.inputs.head?.bind assignment.var?

/-- The test of a decision on an expression. -/
def test (assignment : Assignment) (site : Site) (expr : Expr) : Expr :=
  match assignment.use? site with
  | some use => assignment.expr use expr
  | none => expr

/-- The vertex in the place of one whose values may have moved to variables. -/
def kind (assignment : Assignment) (id : VertexId) : Kind → Except GraphError Kind
  | .single op => do return .single (← assignment.op ⟨id, 0⟩ op)
  | .block ops => do return .block (← assignment.ops id 0 ops)
  | .decision =>
    .ok ((assignment.popped? ⟨id, 0⟩).elim .decision fun var => .exprDecision (.var var))
  | .decisionBlock ops => do
    let body ← assignment.ops id 0 ops
    return (assignment.popped? ⟨id, ops.length⟩).elim (.decisionBlock body) fun var =>
      .exprDecisionBlock body (.var var)
  | .exprDecision expr => .ok (.exprDecision (assignment.test ⟨id, 0⟩ expr))
  | .exprDecisionBlock ops expr => do
    return .exprDecisionBlock (← assignment.ops id 0 ops) (assignment.test ⟨id, ops.length⟩ expr)
  | .random => .ok .random

end Assignment

/-- The assignment that gives the promoted values the variables from `base` on, in order. -/
def Facts.assignment (facts : Facts) (base : Nat) : Assignment :=
  let promoted := facts.promoted
  { use? := facts.use?
    var? := fun value => (promoted.idxOf? value).map fun index => ⟨base + index⟩ }

end StackFlow.Promotion

namespace StackFlow.Graph

/-- Changes the kinds of all vertices; fails with the first failure. -/
def mapKinds (graph : Graph) (change : VertexId → Kind → Except GraphError Kind) :
    Except GraphError Graph :=
  let failure := graph.vertices.findSome? fun (id, vertex) =>
    match change id vertex.kind with
    | .error error => some error
    | .ok _ => none
  match failure with
  | some error => .error error
  | none =>
    .ok <| graph.mapVertices fun id vertex =>
      some { vertex with kind := (change id vertex.kind).toOption.getD vertex.kind }

/-- Moves stack values to variables; gives the new graph and the number of values moved. A vertex is
looked at for at most `limit` depths of the stack. -/
def promoteValues (graph : Graph) (limit : Nat) : Except GraphError (Graph × Nat) :=
  match graph.root with
  | none => .ok (graph, 0)
  | some root => do
    let facts : Promotion.Facts := ⟨graph, ← Promotion.visits graph limit root⟩
    let promoted := facts.promoted
    let assignment := facts.assignment graph.nextVar.index
    let declared := graph.declare (promoted.map fun _ => ⟨0, true⟩)
    if promoted.isEmpty then .ok (graph, 0)
    else return (← declared.mapKinds assignment.kind, promoted.length)

end StackFlow.Graph
