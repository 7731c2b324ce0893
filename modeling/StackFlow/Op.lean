import StackFlow.Dialect
import StackFlow.Expr.Substitute

/-!
# Ops

Straight-line instructions. An op never branches.

A binary op pops the right operand and then the left one, a grid read pops the row and then the
column, and a grid write pops the row, the column and then the value. Popping an empty stack yields
zero and leaves the stack empty.
-/

namespace StackFlow

/-- A straight-line instruction. -/
inductive Op where
  /-- Does nothing. -/
  | nop
  /-- Pushes the value of an expression. -/
  | push (value : Expr)
  /-- Drops the top of the stack. -/
  | pop
  /-- Pushes the top of the stack once more. -/
  | dup
  /-- Exchanges the two topmost values. -/
  | swap
  /-- Pops the right and the left operand and pushes the result. -/
  | math (op : Operator)
  /-- Pops a value and pushes one if it was zero, else zero. -/
  | not
  /-- Pops row and column and pushes the grid cell. -/
  | get
  /-- Pops row, column and value and stores the value in the grid cell. -/
  | set
  /-- Pushes the grid cell at computed coordinates. -/
  | load (x y : Expr)
  /-- Stores a computed value in the grid cell at computed coordinates. -/
  | store (x y value : Expr)
  /-- Pushes a variable. -/
  | varGet (var : VarId)
  /-- Pops into a variable. -/
  | varSet (var : VarId)
  /-- Assigns a computed value to a variable. -/
  | assign (var : VarId) (value : Expr)
  /-- Pops a value and writes it out. -/
  | output (format : Format)
  /-- Writes a computed value out. -/
  | print (value : Expr) (format : Format)
  /-- Writes a fixed text out. -/
  | printText (text : String)
  /-- Reads a value and pushes it. -/
  | input (format : Format)
  /-- Reads a value into a variable. -/
  | inputVar (var : VarId) (format : Format)
deriving DecidableEq

namespace Op

/-- The name used in messages. -/
def name : Op → String
  | .nop => "Nop"
  | .push _ => "Push"
  | .pop => "Pop"
  | .dup => "Dup"
  | .swap => "Swap"
  | .math _ => "BinaryMath"
  | .not => "Not"
  | .get => "Get"
  | .set => "Set"
  | .load _ _ => "ExprGet"
  | .store _ _ _ => "ExprSet"
  | .varGet _ => "VarGet"
  | .varSet _ => "VarSet"
  | .assign _ _ => "ExprVarSet"
  | .output _ => "Output"
  | .print _ _ => "ExprOutput"
  | .printText _ => "StringOutput"
  | .input _ => "Input"
  | .inputVar _ _ => "InputVarSet"

/-- The number of values popped. -/
def pops : Op → Nat
  | .nop | .push _ | .load _ _ | .store _ _ _ | .varGet _ | .assign _ _ | .print _ _ | .printText _
  | .input _ | .inputVar _ _ => 0
  | .pop | .dup | .not | .varSet _ | .output _ => 1
  | .swap | .math _ | .get => 2
  | .set => 3

/-- The number of values pushed after the pops. -/
def pushes : Op → Nat
  | .nop | .pop | .set | .store _ _ _ | .varSet _ | .assign _ _ | .output _ | .print _ _
  | .printText _ | .inputVar _ _ => 0
  | .push _ | .math _ | .not | .get | .load _ _ | .varGet _ | .input _ => 1
  | .dup | .swap => 2

/-- The change in depth of a stack that is deep enough. -/
def delta (op : Op) : Int :=
  (op.pushes : Int) - (op.pops : Int)

/-- The depth after the op, from any depth. Pops stop at the bottom. -/
def depthAfter (op : Op) (depth : Nat) : Nat :=
  depth - op.pops + op.pushes

/-- The value pushed by an op that pushes an expression and does nothing else. -/
def pushed? : Op → Option Expr
  | .push value => some value
  | .load x y => some (.memory x y)
  | .varGet var => some (.var var)
  | _ => none

/-- The expressions of the op from left to right. -/
def expressions : Op → List Expr
  | .push value | .assign _ value | .print value _ => [value]
  | .load x y => [x, y]
  | .store x y value => [x, y, value]
  | .nop | .pop | .dup | .swap | .math _ | .not | .get | .set | .varGet _ | .varSet _ | .output _
  | .printText _ | .input _ | .inputVar _ _ => []

/-- Changes every expression of the op. -/
def mapExpressions (change : Expr → Expr) : Op → Op
  | .push value => .push (change value)
  | .assign var value => .assign var (change value)
  | .print value format => .print (change value) format
  | .load x y => .load (change x) (change y)
  | .store x y value => .store (change x) (change y) (change value)
  | op => op

/-- Some expression of the op depends on the top of the stack. -/
def readsStack (op : Op) : Bool :=
  op.expressions.any Expr.readsStack

/-- What the op touches besides what its expressions read. -/
def ownEffects : Op → Effects
  | .nop => {}
  | .push _ | .pop | .dup | .swap | .math _ | .not => { stack := true }
  | .get | .set | .load _ _ => { stack := true, grid := true }
  | .store _ _ _ => { grid := true }
  | .varGet _ | .varSet _ => { stack := true, vars := true }
  | .assign _ _ => { vars := true }
  | .output _ => { stack := true, output := true }
  | .print _ _ | .printText _ => { output := true }
  | .input _ => { stack := true, input := true }
  | .inputVar _ _ => { vars := true, input := true }

/-- What the op touches. -/
def effects (op : Op) : Effects :=
  op.ownEffects ∪ Effects.unionAll (op.expressions.map Expr.effects)

/-- The grid access of the op itself. -/
def ownMemoryAccess : Op → List MemoryAccess
  | .get | .set => [.stack]
  | .load x y | .store x y _ => [MemoryAccess.ofCoordinates x y]
  | _ => []

/-- Every grid access, the op's own first and then the reads of its expressions. -/
def memoryAccesses (op : Op) : List MemoryAccess :=
  op.ownMemoryAccess ++ op.expressions.flatMap Expr.memoryReads

/-- The variable the op itself reads or writes. -/
def ownVariable : Op → List VarId
  | .varGet var | .varSet var | .assign var _ | .inputVar var _ => [var]
  | _ => []

/-- Every variable read or written, once for each occurrence. -/
def vars (op : Op) : List VarId :=
  op.ownVariable ++ op.expressions.flatMap Expr.vars

/-- The op as the dialect writes it. -/
def render (dialect : Dialect) : Op → String
  | .nop => dialect.nop
  | .push value => dialect.push (value.render dialect.toExprDialect)
  | .pop => dialect.pop
  | .dup => dialect.dup
  | .swap => dialect.swap
  | .math op => dialect.math op
  | .not => dialect.negate
  | .get => dialect.get
  | .set => dialect.set
  | .load x y => dialect.load (x.render dialect.toExprDialect) (y.render dialect.toExprDialect)
  | .store x y value =>
    dialect.store (x.render dialect.toExprDialect) (y.render dialect.toExprDialect)
      (value.render dialect.toExprDialect)
  | .varGet var => dialect.varGet var
  | .varSet var => dialect.varSet var
  | .assign var value => dialect.assign var (value.render dialect.toExprDialect)
  | .output format => dialect.output format
  | .print value format => dialect.print (value.render dialect.toExprDialect) format
  | .printText text => dialect.printText text
  | .input format => dialect.input format
  | .inputVar var format => dialect.inputVar var format

end Op

end StackFlow
