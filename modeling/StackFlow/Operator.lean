import StackFlow.Word

/-!
# Binary operators

The eleven operators that combine two words: five of arithmetic and six relations. Operands are
named by stack order, so the second value popped is the left one and the top of the stack is the
right one.
-/

namespace StackFlow

/-- A binary operator on words. -/
inductive Operator where
  | add
  | sub
  | mul
  | div
  | mod
  | gt
  | lt
  | ge
  | le
  | eq
  | ne
deriving DecidableEq

namespace Operator

/-- The sign written between the operands. -/
def symbol : Operator → String
  | .add => "+"
  | .sub => "-"
  | .mul => "*"
  | .div => "/"
  | .mod => "%"
  | .gt => ">"
  | .lt => "<"
  | .ge => ">="
  | .le => "<="
  | .eq => "=="
  | .ne => "!="

/-- Relations yield only zero or one. -/
def isRelation : Operator → Bool
  | .gt | .lt | .ge | .le | .eq | .ne => true
  | .add | .sub | .mul | .div | .mod => false

/-- The relation that holds exactly when the given one does not. Arithmetic has none. -/
def negated? : Operator → Option Operator
  | .gt => some .le
  | .le => some .gt
  | .lt => some .ge
  | .ge => some .lt
  | .eq => some .ne
  | .ne => some .eq
  | .add | .sub | .mul | .div | .mod => none

/-- The value of `lhs op rhs`. Arithmetic wraps, division goes toward zero, and dividing by zero
yields zero, as does the remainder. -/
def evaluate (op : Operator) (lhs rhs : Word) : Word :=
  match op with
  | .add => lhs + rhs
  | .sub => lhs - rhs
  | .mul => lhs * rhs
  | .div => if rhs = 0 then 0 else lhs / rhs
  | .mod => if rhs = 0 then 0 else lhs % rhs
  | .gt => if lhs > rhs then 1 else 0
  | .lt => if lhs < rhs then 1 else 0
  | .ge => if lhs ≥ rhs then 1 else 0
  | .le => if lhs ≤ rhs then 1 else 0
  | .eq => if lhs = rhs then 1 else 0
  | .ne => if lhs ≠ rhs then 1 else 0

end Operator

end StackFlow
