import StackFlow.Expr.Basic

/-!
# Values of expressions

The value of a tree in a given environment. It says what simplification has to preserve.
-/

namespace StackFlow

/-- What the value of an expression depends on. -/
structure Env where
  /-- The top of the stack; zero if the stack is empty. -/
  top : Word
  /-- The variables. -/
  vars : VarId → Word
  /-- The grid by column and row. -/
  cell : Word → Word → Word

/-- The value of an expression. -/
def Expr.eval (env : Env) : Expr → Word
  | .const value => value
  | .var id => env.vars id
  | .binary op lhs rhs => op.evaluate (lhs.eval env) (rhs.eval env)
  | .not operand => if operand.eval env = 0 then 1 else 0
  | .boolCast operand => if operand.eval env = 0 then 0 else 1
  | .peek => env.top
  | .memory x y => env.cell (x.eval env) (y.eval env)

end StackFlow
