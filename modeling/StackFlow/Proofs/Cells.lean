import Mathlib
import StackFlow.Cells
import StackFlow.Proofs.Behaviour.Lockstep
import StackFlow.Proofs.Expr.Meaning

/-!
# Moving cells to variables keeps the behaviour

Both programs run in lockstep. In related states the variable of a cell holds what
the cell holds in the original program, and the cells that stay in the grid hold
the same in both programs.

The pass acts only if all coordinates are literals. An access then either goes to
the variable of its cell in every run or to the grid in every run.
-/

namespace StackFlow

namespace MemoryAccess

theorem exists_const_of_isConstant {x y : Expr} (fixed : (ofCoordinates x y).isConstant = true) :
    ∃ column row, x = .const column ∧ y = .const row := by
  unfold ofCoordinates at fixed
  split at fixed
  · rename_i column row xLiteral yLiteral
    exact ⟨column, row, Expr.eq_const_of_constant? xLiteral, Expr.eq_const_of_constant? yLiteral⟩
  · simp [isConstant, cell?] at fixed

end MemoryAccess

/-- Every access has literal coordinates. -/
def Fixed (accesses : List MemoryAccess) : Prop :=
  ∀ access ∈ accesses, access.isConstant = true

namespace CellMap

variable {map : CellMap} {column row : Word} {var : VarId}

theorem var?_eq_some_iff :
    map.var? (.const column) (.const row) = some var ↔
      ∃ index, map.cells.idxOf? (column, row) = some index ∧ var = ⟨map.base + index⟩ := by
  simp only [var?, Expr.constant?, Option.pure_def, Option.bind_eq_bind, Option.bind_some,
    Option.bind_eq_some_iff, Option.some.injEq]
  exact exists_congr fun _ => and_congr_right fun _ => eq_comm

/-- Two cells do not share a variable. -/
theorem cell_eq_of_var? {x y : Word} (first : map.var? (.const column) (.const row) = some var)
    (second : map.var? (.const x) (.const y) = some var) : x = column ∧ y = row := by
  rcases var?_eq_some_iff.mp first with ⟨index, place, rfl⟩
  rcases var?_eq_some_iff.mp second with ⟨other, otherPlace, same⟩
  have sameIndex : other = index := by
    rw [VarId.mk.injEq] at same
    omega
  subst sameIndex
  rcases List.idxOf?_eq_some_iff.mp place with ⟨_, atPlace, -⟩
  rcases List.idxOf?_eq_some_iff.mp otherPlace with ⟨_, atOther, -⟩
  exact Prod.mk.injEq _ _ _ _ ▸ atOther.symm.trans atPlace

theorem base_le_of_var? (found : map.var? (.const column) (.const row) = some var) :
    map.base ≤ var.index := by
  rcases var?_eq_some_iff.mp found with ⟨index, -, rfl⟩
  exact Nat.le_add_right _ _

theorem index_lt_of_var? {x y : Expr} (found : map.var? x y = some var) :
    var.index < map.base + map.cells.length := by
  simp only [var?, Option.pure_def, Option.bind_eq_bind, Option.bind_eq_some_iff,
    Option.some.injEq] at found
  rcases found with ⟨_, -, _, -, index, place, rfl⟩
  rcases List.idxOf?_eq_some_iff.mp place with ⟨bound, -⟩
  exact Nat.add_lt_add_left bound _

/-- The state of the program with cells in variables, beside that of the original. -/
structure Relates (map : CellMap) (state twin : State) : Prop where
  stack : twin.stack = state.stack
  input : twin.input = state.input
  vars : ∀ var, var.index < map.base → twin.vars var = state.vars var
  moved : ∀ {column row var}, map.var? (.const column) (.const row) = some var →
    state.grid.contains column row = true ∧ twin.vars var = state.grid.read column row
  extent : ∀ x y, twin.grid.contains x y = state.grid.contains x y
  kept : ∀ {column row}, map.var? (.const column) (.const row) = none →
    twin.grid.read column row = state.grid.read column row

namespace Relates

variable {state twin : State}

theorem operand (relates : map.Relates state twin) (place : Nat) :
    twin.operand place = state.operand place := by
  rw [State.operand, relates.stack, State.operand]

theorem replace (relates : map.Relates state twin) (pops : Nat) (pushes : List Word) :
    map.Relates (state.replace pops pushes) (twin.replace pops pushes) where
  stack := by simp only [State.replace, relates.stack]
  input := relates.input
  vars := relates.vars
  moved := relates.moved
  extent := relates.extent
  kept := relates.kept

theorem skipInput (relates : map.Relates state twin) :
    map.Relates state.skipInput twin.skipInput where
  stack := relates.stack
  input := by simp only [State.skipInput, relates.input]
  vars := relates.vars
  moved := relates.moved
  extent := relates.extent
  kept := relates.kept

theorem assign (relates : map.Relates state twin) (own : var.index < map.base) (value : Word) :
    map.Relates (state.assign var value) (twin.assign var value) where
  stack := relates.stack
  input := relates.input
  vars := by
    intro other otherOwn
    simp only [State.assign, relates.vars other otherOwn]
  moved := by
    intro column row cellVar found
    have apart : cellVar ≠ var := by
      rintro rfl
      have fresh := base_le_of_var? found
      omega
    simpa only [State.assign, if_neg apart] using relates.moved found
  extent := relates.extent
  kept := relates.kept

/-- Writing a cell is assigning its variable. -/
theorem store_moved (relates : map.Relates state twin)
    (found : map.var? (.const column) (.const row) = some var) (value : Word) :
    map.Relates (state.store column row value) (twin.assign var value) where
  stack := relates.stack
  input := relates.input
  vars := by
    intro other own
    have apart : other ≠ var := by
      rintro rfl
      have fresh := base_le_of_var? found
      omega
    simpa only [State.assign, State.store, if_neg apart] using relates.vars other own
  moved := by
    intro x y other otherFound
    have inside := (relates.moved found).1
    refine ⟨by simpa only [State.store, Grid.contains_write] using (relates.moved otherFound).1, ?_⟩
    simp only [State.assign, State.store, Grid.read_write, inside, true_and]
    by_cases same : other = var
    · subst same
      rw [if_pos rfl, if_pos (cell_eq_of_var? found otherFound)]
    · have apart : ¬(x = column ∧ y = row) := by
        rintro ⟨rfl, rfl⟩
        exact same (Option.some.inj (otherFound.symm.trans found))
      rw [if_neg same, if_neg apart, (relates.moved otherFound).2]
  extent := by
    intro x y
    simpa only [State.assign, State.store, Grid.contains_write] using relates.extent x y
  kept := by
    intro x y absent
    have apart : ¬(x = column ∧ y = row) := by
      rintro ⟨rfl, rfl⟩
      rw [found] at absent
      cases absent
    simp only [State.assign, State.store, Grid.read_write, apart, and_false, if_false]
    exact relates.kept absent

theorem store_kept (relates : map.Relates state twin)
    (absent : map.var? (.const column) (.const row) = none) (value : Word) :
    map.Relates (state.store column row value) (twin.store column row value) where
  stack := relates.stack
  input := relates.input
  vars := relates.vars
  moved := by
    intro x y var found
    have apart : ¬(x = column ∧ y = row) := by
      rintro ⟨rfl, rfl⟩
      rw [absent] at found
      cases found
    simpa only [State.store, Grid.contains_write, Grid.read_write, apart, and_false, if_false] using
      relates.moved found
  extent := by
    intro x y
    simpa only [State.store, Grid.contains_write] using relates.extent x y
  kept := by
    intro x y otherAbsent
    simp only [State.store, Grid.read_write, relates.extent, relates.kept otherAbsent]

/-- An expression with variables in the place of cells has the value that the original has. -/
theorem eval (relates : map.Relates state twin) {expr : Expr}
    (own : ∀ var ∈ expr.vars, var.index < map.base) (fixed : Fixed expr.memoryReads) :
    (map.expr expr).eval twin.env = expr.eval state.env := by
  rw [CellMap.expr, Expr.eval_substitute]
  induction expr with
  | const value => rfl
  | var id => exact relates.vars id (own id (by simp [Expr.vars]))
  | peek => exact relates.operand 0
  | not operand value | boolCast operand value =>
      rw [Expr.evalWith, if_neg (by simp [read?]), value own fixed, Expr.eval]
  | binary op lhs rhs leftValue rightValue =>
      rw [Expr.evalWith, if_neg (by simp [read?]), Expr.eval,
        leftValue (fun id member => own id (List.mem_append_left _ member))
          (fun access member => fixed access (List.mem_append_left _ member)),
        rightValue (fun id member => own id (List.mem_append_right _ member))
          (fun access member => fixed access (List.mem_append_right _ member))]
  | memory x y _ _ =>
      rcases MemoryAccess.exists_const_of_isConstant (fixed _ (List.mem_cons_self ..)) with
        ⟨column, row, rfl, rfl⟩
      unfold Expr.evalWith
      cases found : map.var? (.const column) (.const row) with
      | none =>
          simp only [read?, found, Option.map_none, Option.isSome_none, Bool.false_eq_true,
            if_false]
          exact relates.kept found
      | some var =>
          simp only [read?, found, Option.map_some, Option.isSome_some, if_true, Option.getD_some]
          exact (relates.moved found).2

end Relates

@[simp]
theorem expr_const (map : CellMap) (value : Word) : map.expr (.const value) = .const value := rfl

/-- An op with variables in the place of cells shows the same and keeps states related. -/
theorem op_spec {state twin : State} (relates : map.Relates state twin) {op : Op}
    (own : ∀ var ∈ op.vars, var.index < map.base) (fixed : Fixed op.memoryAccesses) :
    op.events state = (map.op op).events twin ∧
      map.Relates (op.run state) ((map.op op).run twin) := by
  have same : ∀ expr ∈ op.expressions, (map.expr expr).eval twin.env = expr.eval state.env := by
    intro expr member
    refine relates.eval (fun var varMember => own var ?_)
      (fun access accessMember => fixed access ?_)
    · exact Op.mem_vars.mpr (.inr ⟨expr, member, varMember⟩)
    · exact List.mem_append_right _ (List.mem_flatMap.mpr ⟨expr, member, accessMember⟩)
  have ownVar : ∀ var ∈ op.ownVariable, var.index < map.base :=
    fun var member => own var (Op.mem_vars.mpr (.inl member))
  have ownFixed : Fixed op.ownMemoryAccess :=
    fun access member => fixed access (List.mem_append_left _ member)
  cases op with
  | nop | printText text => exact ⟨rfl, relates⟩
  | pop | dup | swap | math operator | not =>
      refine ⟨rfl, ?_⟩
      simp only [CellMap.op, Op.mapExpressions, Op.run, relates.operand]
      exact relates.replace _ _
  | get | set =>
      -- Coordinates that come from the stack are never literals.
      have dynamic := ownFixed .stack (by simp [Op.ownMemoryAccess])
      simp [MemoryAccess.isConstant, MemoryAccess.cell?] at dynamic
  | push value =>
      refine ⟨rfl, ?_⟩
      simp only [CellMap.op, Op.mapExpressions, Op.run, same value (by simp [Op.expressions])]
      exact relates.replace _ _
  | print value format =>
      simp only [CellMap.op, Op.mapExpressions, Op.run, Op.events,
        same value (by simp [Op.expressions])]
      exact ⟨trivial, relates⟩
  | output format =>
      simp only [CellMap.op, Op.mapExpressions, Op.run, Op.events, relates.operand]
      exact ⟨trivial, relates.replace _ _⟩
  | assign var value =>
      refine ⟨rfl, ?_⟩
      simp only [CellMap.op, Op.mapExpressions, Op.run, same value (by simp [Op.expressions])]
      exact relates.assign (ownVar var (by simp [Op.ownVariable])) _
  | varGet var =>
      refine ⟨rfl, ?_⟩
      simp only [CellMap.op, Op.mapExpressions, Op.run,
        relates.vars var (ownVar var (by simp [Op.ownVariable]))]
      exact relates.replace _ _
  | varSet var =>
      refine ⟨rfl, ?_⟩
      simp only [CellMap.op, Op.mapExpressions, Op.run, relates.operand]
      exact (relates.assign (ownVar var (by simp [Op.ownVariable])) _).replace _ _
  | input format =>
      simp only [CellMap.op, Op.mapExpressions, Op.run, Op.events, relates.input]
      exact ⟨trivial, relates.skipInput.replace _ _⟩
  | inputVar var format =>
      simp only [CellMap.op, Op.mapExpressions, Op.run, Op.events, relates.input]
      exact ⟨trivial, relates.skipInput.assign (ownVar var (by simp [Op.ownVariable])) _⟩
  | load x y =>
      rcases MemoryAccess.exists_const_of_isConstant (ownFixed _ (List.mem_cons_self ..)) with
        ⟨column, row, rfl, rfl⟩
      simp only [CellMap.op, Op.mapExpressions, expr_const]
      cases found : map.var? (.const column) (.const row) with
      | none =>
          refine ⟨rfl, ?_⟩
          simp only [Op.run, Expr.eval, relates.kept found]
          exact relates.replace _ _
      | some var =>
          refine ⟨rfl, ?_⟩
          simp only [Op.run, Expr.eval, State.env, (relates.moved found).2]
          exact relates.replace _ _
  | store x y value =>
      rcases MemoryAccess.exists_const_of_isConstant (ownFixed _ (List.mem_cons_self ..)) with
        ⟨column, row, rfl, rfl⟩
      have sameValue := same value (by simp [Op.expressions])
      simp only [CellMap.op, Op.mapExpressions, expr_const]
      cases found : map.var? (.const column) (.const row) with
      | none =>
          refine ⟨rfl, ?_⟩
          simp only [Op.run, Expr.eval, sameValue]
          exact relates.store_kept found _
      | some var =>
          refine ⟨rfl, ?_⟩
          simp only [Op.run, Expr.eval, sameValue]
          exact relates.store_moved found _

theorem ops_spec {state twin : State} (relates : map.Relates state twin) {ops : List Op}
    (own : ∀ op ∈ ops, ∀ var ∈ op.vars, var.index < map.base)
    (fixed : ∀ op ∈ ops, Fixed op.memoryAccesses) :
    state.events ops = twin.events (ops.map map.op) ∧
      map.Relates (state.run ops) (twin.run (ops.map map.op)) := by
  induction ops generalizing state twin with
  | nil => exact ⟨rfl, relates⟩
  | cons op ops rest =>
      rcases op_spec relates (own op (by simp)) (fixed op (by simp)) with ⟨events, after⟩
      rcases rest after (fun op member => own op (by simp [member]))
        (fun op member => fixed op (by simp [member])) with ⟨others, final⟩
      exact ⟨congrArg₂ (· ++ ·) events others, final⟩

theorem index_lt_of_mem_expr {expr : Expr} (own : ∀ var ∈ expr.vars, var.index < map.base)
    (member : var ∈ (map.expr expr).vars) : var.index < map.base + map.cells.length := by
  rcases Expr.mem_vars_of_mem_substitute member with old | ⟨part, reads, new⟩
  · exact Nat.lt_add_right _ (own var old)
  · rcases Option.isSome_iff_exists.mp reads with ⟨twin, read⟩
    rw [read, Option.getD_some] at new
    unfold read? at read
    split at read
    · rcases Option.map_eq_some_iff.mp read with ⟨cellVar, found, rfl⟩
      rw [List.mem_singleton.mp new]
      exact index_lt_of_var? found
    · cases read

/-- A variable of the new op is one of its expressions or that of the cell it accesses. -/
theorem mem_vars_mapExpressions_of_mem_op {op : Op} (member : var ∈ (map.op op).vars) :
    var ∈ (op.mapExpressions map.expr).vars ∨ ∃ x y, map.var? x y = some var := by
  unfold CellMap.op at member
  split at member
  · rename_i x y loads
    split at member
    · rename_i cellVar found
      have same : var = cellVar := by
        simpa [Op.vars, Op.ownVariable, Op.expressions, Expr.vars] using member
      exact .inr ⟨x, y, same ▸ found⟩
    · exact .inl (loads ▸ member)
  · rename_i x y value stores
    split at member
    · rename_i cellVar found
      have cases : var = cellVar ∨ var ∈ value.vars := by
        simpa [Op.vars, Op.ownVariable, Op.expressions] using member
      rcases cases with rfl | inValue
      · exact .inr ⟨x, y, found⟩
      · exact .inl (stores ▸ Op.mem_vars.mpr (.inr ⟨value, by simp [Op.expressions], inValue⟩))
    · exact .inl (stores ▸ member)
  · exact .inl member

theorem index_lt_of_mem_op {op : Op} (own : ∀ var ∈ op.vars, var.index < map.base)
    (member : var ∈ (map.op op).vars) : var.index < map.base + map.cells.length := by
  rcases mem_vars_mapExpressions_of_mem_op member with inOp | ⟨x, y, found⟩
  · rcases Op.mem_vars_mapExpressions.mp inOp with ownVar | ⟨expr, listed, inside⟩
    · exact Nat.lt_add_right _ (own var (Op.mem_vars.mpr (.inl ownVar)))
    · exact index_lt_of_mem_expr
        (fun other occurs => own other (Op.mem_vars.mpr (.inr ⟨expr, listed, occurs⟩))) inside
  · exact index_lt_of_var? found

end CellMap

namespace Kind

variable {changeOp : Op → Op} {changeTest : Expr → Expr}

theorem ops_map (kind : Kind) : (kind.map changeOp changeTest).ops = kind.ops.map changeOp := by
  cases kind <;> rfl

theorem arity?_map (kind : Kind) : (kind.map changeOp changeTest).arity? = kind.arity? := by
  cases kind <;> rfl

theorem test?_map (kind : Kind) :
    (kind.map changeOp changeTest).test? = kind.test?.map changeTest := by
  cases kind <;> rfl

/-- A change of ops and tests that keeps states related and the value of the test leaves by the same
edge. -/
theorem exit_map_spec {related : State → State → Prop} (kind : Kind) {state twin : State}
    (holds : related state twin) (top : twin.operand 0 = state.operand 0)
    (tests : ∀ test ∈ kind.test?, (changeTest test).eval twin.env = test.eval state.env)
    (popped : related (state.replace 1 []) (twin.replace 1 [])) :
    (∀ drawn, (kind.map changeOp changeTest).exit.edge drawn twin = kind.exit.edge drawn state) ∧
      related (kind.exit.run state) ((kind.map changeOp changeTest).exit.run twin) := by
  cases kind with
  | single op | block ops | random => exact ⟨fun _ => rfl, holds⟩
  | decision | decisionBlock ops =>
      refine ⟨fun _ => ?_, popped⟩
      simp only [map, exit, Exit.edge, top]
  | exprDecision test | exprDecisionBlock ops test =>
      refine ⟨fun _ => ?_, holds⟩
      simp only [map, exit, Exit.edge, tests test (by simp [test?, exit])]

end Kind

namespace Graph

variable {graph : Graph}

theorem fixed_of_dynamicAccesses (static : graph.dynamicAccesses = []) {id : VertexId}
    {vertex : Vertex} (found : graph.vertex? id = some vertex) :
    Fixed vertex.kind.memoryAccesses := by
  intro access member
  by_contra dynamic
  have listed : access ∈ graph.dynamicAccesses := by
    simp only [dynamicAccesses, kinds, List.mem_eraseDups, List.mem_flatMap, List.mem_map,
      Prod.exists, mem_vertices]
    refine ⟨vertex.kind, ⟨id, vertex, found, rfl⟩, ?_⟩
    simp only [Kind.dynamicAccesses, List.mem_filter]
    exact ⟨member, by simpa using dynamic⟩
  simp [static] at listed

/-- The cells with a variable of their own. -/
def cellMap (graph : Graph) : CellMap :=
  ⟨graph.promotableCells, graph.nextVar.index⟩

theorem cellMap_lockstep (declared : graph.Declared) (fixed : graph.dynamicAccesses = []) :
    graph.Lockstep (fun _ kind => kind.map graph.cellMap.op graph.cellMap.expr)
      ⟨fun _ _ => graph.cellMap.Relates, fun _ => graph.cellMap.Relates⟩ := by
  intro path id vertex state twin found relates
  have own := declared_iff.mp declared id vertex found
  have kindFixed := fixed_of_dynamicAccesses fixed found
  have opsOwn : ∀ op ∈ vertex.kind.ops, ∀ var ∈ op.vars, var.index < graph.cellMap.base :=
    fun op member var varMember => own var (Kind.mem_vars.mpr (.inl ⟨op, member, varMember⟩))
  have opsFixed : ∀ op ∈ vertex.kind.ops, Fixed op.memoryAccesses :=
    fun op member access accessMember =>
    kindFixed access (List.mem_append_left _ (List.mem_flatMap.mpr ⟨op, member, accessMember⟩))
  rcases CellMap.ops_spec relates opsOwn opsFixed with ⟨events, after⟩
  have tests : ∀ test ∈ vertex.kind.test?,
      (graph.cellMap.expr test).eval (twin.run (vertex.kind.ops.map graph.cellMap.op)).env =
        test.eval (state.run vertex.kind.ops).env := by
    intro test member
    refine after.eval
      (fun var varMember => own var (Kind.mem_vars.mpr (.inr ⟨test, member, varMember⟩))) ?_
    intro access accessMember
    exact kindFixed access
      (List.mem_append_right _ (List.mem_flatMap.mpr ⟨test, by simpa using member, accessMember⟩))
  rcases Kind.exit_map_spec vertex.kind after (after.operand 0) tests (after.replace 1 []) with
    ⟨edges, final⟩
  simp only [Kind.events, Kind.edge, Kind.run, Kind.ops_map]
  exact ⟨events, edges, final, fun _ _ _ => final⟩

/-- The graph with its promotable cells in variables. -/
def withCells (graph : Graph) : Graph :=
  (graph.declare (graph.promotableCells.map fun (x, y) => ⟨graph.grid.read x y, false⟩)).mapVertices
    fun _ vertex => some { vertex with kind := vertex.kind.map graph.cellMap.op graph.cellMap.expr }

theorem withCells_rekinded (graph : Graph) :
    graph.Rekinded graph.withCells fun _ kind => kind.map graph.cellMap.op graph.cellMap.expr where
  root := rfl
  view := by
    intro id
    rw [withCells, vertex?_mapVertices, Option.map_eq_bind]
    rfl
  arity := fun _ => Kind.arity?_map _

theorem size_vars_withCells (graph : Graph) :
    graph.withCells.vars.size = graph.cellMap.base + graph.cellMap.cells.length := by
  simp [withCells, mapVertices, declare, cellMap, nextVar]

theorem withCells_declared (declared : graph.Declared) : graph.withCells.Declared := by
  rw [declared_iff]
  intro id twin twinFound var member
  rcases graph.withCells_rekinded.exists_vertex twinFound with ⟨vertex, found, rfl⟩
  have own := declared_iff.mp declared id vertex found
  rw [size_vars_withCells]
  rcases Kind.mem_vars.mp member with ⟨op, opMember, inside⟩ | ⟨test, tested, inside⟩
  · rw [Kind.ops_map] at opMember
    rcases List.mem_map.mp opMember with ⟨original, originalMember, rfl⟩
    exact CellMap.index_lt_of_mem_op
      (fun other occurs => own other (Kind.mem_vars.mpr (.inl ⟨original, originalMember, occurs⟩)))
      inside
  · rw [Kind.test?_map] at tested
    rcases Option.map_eq_some_iff.mp tested with ⟨original, originalTest, rfl⟩
    exact CellMap.index_lt_of_mem_expr
      (fun other occurs => own other (Kind.mem_vars.mpr (.inr ⟨original, originalTest, occurs⟩)))
      inside

/-- At the start the variable of each cell holds the contents of the cell. -/
theorem cellMap_relates_initialState (graph : Graph) (input : Nat → Word) :
    graph.cellMap.Relates (graph.initialState input) (graph.withCells.initialState input) where
  stack := rfl
  input := rfl
  vars := by
    intro var own
    have inside : var.index < graph.vars.size := own
    simp [initialState, initialValue, withCells, mapVertices, declare,
      Array.getElem?_append_left inside]
  moved := by
    intro column row var found
    rcases CellMap.var?_eq_some_iff.mp found with ⟨index, place, rfl⟩
    rcases List.idxOf?_eq_some_iff.mp place with ⟨bound, atPlace, -⟩
    constructor
    · have member : (column, row) ∈ graph.promotableCells := atPlace ▸ List.getElem_mem bound
      unfold promotableCells at member
      split at member
      · exact (List.mem_filter.mp (List.mem_mergeSort.mp member)).2
      · simp at member
    · have atIndex : graph.promotableCells[index]? = some (column, row) :=
        List.getElem?_eq_some_iff.mpr ⟨bound, atPlace⟩
      simp [initialState, initialValue, withCells, mapVertices, declare, cellMap, nextVar,
        Array.getElem?_append_right, atIndex]
  extent := fun _ _ => rfl
  kept := fun _ => rfl

theorem dynamicAccesses_of_promotableCells (nonempty : graph.promotableCells ≠ []) :
    graph.dynamicAccesses = [] := by
  unfold promotableCells at nonempty
  split at nonempty
  · rename_i empty
    exact List.isEmpty_iff.mp empty
  · exact absurd rfl nonempty

theorem promoteCells_of_nonempty (nonempty : graph.promotableCells ≠ []) :
    graph.promoteCells.1 = graph.withCells := by
  simp only [promoteCells, List.isEmpty_iff, nonempty, if_false]
  rfl

theorem promoteCells_eq (graph : Graph) :
    graph.promoteCells.1 = graph ∨ graph.promotableCells ≠ [] ∧
      graph.promoteCells.1 = graph.withCells := by
  by_cases empty : graph.promotableCells = []
  · exact .inl (by simp [promoteCells, empty])
  · exact .inr ⟨empty, promoteCells_of_nonempty empty⟩

/-- Moving cells to variables keeps a graph well formed and its behaviour. -/
theorem promoteCells_spec (wellFormed : graph.WellFormed) :
    graph.promoteCells.1.WellFormed ∧ graph.BehavesLike graph.promoteCells.1 := by
  rcases graph.promoteCells_eq with same | ⟨nonempty, moved⟩
  · rw [same]
    exact ⟨wellFormed, .refl graph⟩
  · have rekinded := graph.withCells_rekinded
    rw [moved]
    refine ⟨⟨rekinded.consistent wellFormed.consistent, rekinded.rooted wellFormed.rooted,
      withCells_declared wellFormed.declared⟩, ?_⟩
    exact rekinded.behavesLike wellFormed.consistent wellFormed.rooted
      (cellMap_lockstep wellFormed.declared (dynamicAccesses_of_promotableCells nonempty))
      fun input _ _ => graph.cellMap_relates_initialState input

end Graph

end StackFlow
