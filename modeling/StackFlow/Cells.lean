import StackFlow.Graph.Analysis

/-!
# Constant cells

If every access to the grid has literal coordinates, no cell can be reached by a computed address,
and each cell that is accessed can live in a variable that starts with the contents of the cell.
Cells outside the grid stay where they are: reading one yields zero whatever was written.
-/

namespace StackFlow

/-- Cells that live in variables, which are numbered from `base` in the order of the list. -/
structure CellMap where
  cells : List (Word × Word)
  base : Nat

namespace CellMap

/-- The variable of the cell at the given coordinates. -/
def var? (map : CellMap) (x y : Expr) : Option VarId := do
  let column ← x.constant?
  let row ← y.constant?
  let index ← map.cells.idxOf? (column, row)
  return ⟨map.base + index⟩

/-- Reads the variable of a cell in the place of the cell. -/
def read? (map : CellMap) : Expr → Option Expr
  | .memory x y => (map.var? x y).map .var
  | _ => none

/-- The expression with variables in the place of their cells. -/
def expr (map : CellMap) (expr : Expr) : Expr :=
  expr.substitute (fun part => (map.read? part).isSome) (fun part => (map.read? part).getD part)

/-- The op with variables in the place of their cells. -/
def op (map : CellMap) (op : Op) : Op :=
  match op.mapExpressions map.expr with
  | .load x y =>
    match map.var? x y with
    | some var => .push (.var var)
    | none => .load x y
  | .store x y value =>
    match map.var? x y with
    | some var => .assign var value
    | none => .store x y value
  | other => other

end CellMap

namespace Graph

/-- Cells are ordered by column and then by row. -/
def cellBefore (first second : Word × Word) : Bool :=
  first.1 < second.1 || (first.1 = second.1 && first.2 ≤ second.2)

/-- The cells that can live in variables, in order. -/
def promotableCells (graph : Graph) : List (Word × Word) :=
  if graph.dynamicAccesses.isEmpty then
    (graph.constantCells.filter fun (x, y) => graph.grid.contains x y).mergeSort cellBefore
  else []

/-- Moves cells to variables; gives the new graph and the number of cells. -/
def promoteCells (graph : Graph) : Graph × Nat :=
  let cells := graph.promotableCells
  let map : CellMap := ⟨cells, graph.nextVar.index⟩
  let declared := graph.declare (cells.map fun (x, y) => ⟨graph.grid.read x y, false⟩)
  if cells.isEmpty then (graph, 0)
  else
    (declared.mapVertices fun _ vertex =>
      some { vertex with kind := vertex.kind.map map.op map.expr }, cells.length)

end Graph

end StackFlow
