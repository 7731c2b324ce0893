import StackFlow.Effects
import StackFlow.Operator

/-!
# Expressions

Values computed without popping: trees over constants, variables, the top of the stack and grid
cells. The functions here only inspect a tree. Trees are put together in `StackFlow.Expr.Build`,
which simplifies on the way.
-/

namespace StackFlow

/-- A value expression. -/
inductive Expr where
  /-- A literal word. -/
  | const (value : Word)
  /-- The current value of a variable. -/
  | var (id : VarId)
  /-- `lhs op rhs`. -/
  | binary (op : Operator) (lhs rhs : Expr)
  /-- One if the operand is zero, else zero. -/
  | not (operand : Expr)
  /-- Zero if the operand is zero, else one. -/
  | boolCast (operand : Expr)
  /-- The top of the stack, left in place; zero if the stack is empty. -/
  | peek
  /-- The grid cell at column `x` and row `y`. -/
  | memory (x y : Expr)
deriving DecidableEq

namespace Expr

/-- The word of a literal. -/
def constant? : Expr → Option Word
  | .const value => some value
  | _ => none

/-- The expression is a literal. -/
def isConstant (expr : Expr) : Bool :=
  expr.constant?.isSome

/-- The value is zero or one whatever the state, as the outermost node shows. -/
def isBoolean : Expr → Bool
  | .const value => value = 0 || value = 1
  | .binary op _ _ => op.isRelation
  | .not _ | .boolCast _ => true
  | .var _ | .peek | .memory _ _ => false

/-- Direct subexpressions from left to right. -/
def children : Expr → List Expr
  | .const _ | .var _ | .peek => []
  | .binary _ lhs rhs => [lhs, rhs]
  | .not operand | .boolCast operand => [operand]
  | .memory x y => [x, y]

/-- The predicate holds for some node of the tree. -/
def any (pred : Expr → Bool) : Expr → Bool
  | .const value => pred (.const value)
  | .var id => pred (.var id)
  | .peek => pred .peek
  | .binary op lhs rhs => pred (.binary op lhs rhs) || lhs.any pred || rhs.any pred
  | .not operand => pred (.not operand) || operand.any pred
  | .boolCast operand => pred (.boolCast operand) || operand.any pred
  | .memory x y => pred (.memory x y) || x.any pred || y.any pred

/-- The node is the top of the stack. -/
def isPeek : Expr → Bool
  | .peek => true
  | _ => false

/-- The value depends on the top of the stack. -/
def readsStack (expr : Expr) : Bool :=
  expr.any isPeek

/-- What evaluating the expression reads. -/
def effects : Expr → Effects
  | .const _ => {}
  | .var _ => { vars := true }
  | .peek => { stack := true }
  | .binary _ lhs rhs => lhs.effects ∪ rhs.effects
  | .not operand | .boolCast operand => operand.effects
  | .memory x y => { grid := true } ∪ x.effects ∪ y.effects

/-- Every variable read, outermost and leftmost first, once for each occurrence. -/
def vars : Expr → List VarId
  | .var id => [id]
  | .const _ | .peek => []
  | .binary _ lhs rhs => lhs.vars ++ rhs.vars
  | .not operand | .boolCast operand => operand.vars
  | .memory x y => x.vars ++ y.vars

end Expr

/-- One access to the memory grid, by how much is known of its coordinates. -/
inductive MemoryAccess where
  /-- Both coordinates are literals. -/
  | constant (x y : Word)
  /-- The coordinates are expressions, not both of them literals. -/
  | computed (x y : Expr)
  /-- The coordinates are popped from the stack. -/
  | stack
deriving DecidableEq

namespace MemoryAccess

/-- The access at the given coordinates. -/
def ofCoordinates (x y : Expr) : MemoryAccess :=
  match x.constant?, y.constant? with
  | some column, some row => .constant column row
  | _, _ => .computed x y

/-- The cell of an access whose coordinates are both literals. -/
def cell? : MemoryAccess → Option (Word × Word)
  | .constant x y => some (x, y)
  | .computed _ _ | .stack => none

/-- The cell is known before the program runs. -/
def isConstant (access : MemoryAccess) : Bool :=
  access.cell?.isSome

end MemoryAccess

/-- Every grid cell the expression reads, outermost and leftmost first. -/
def Expr.memoryReads : Expr → List MemoryAccess
  | .const _ | .var _ | .peek => []
  | .binary _ lhs rhs => lhs.memoryReads ++ rhs.memoryReads
  | .not operand | .boolCast operand => operand.memoryReads
  | .memory x y => MemoryAccess.ofCoordinates x y :: (x.memoryReads ++ y.memoryReads)

end StackFlow
