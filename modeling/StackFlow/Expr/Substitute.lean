import StackFlow.Expr.Build

/-!
# Substitution

Replacing parts of an expression. Trees above a replaced part are built anew, so that a simplified
expression stays simplified.
-/

namespace StackFlow

namespace Expr

/-- Replaces every outermost node that satisfies the predicate, and is `none` if there is no such
node. What is put in is not searched again. -/
def substitute? (pred : Expr → Bool) (replace : Expr → Expr) : Expr → Option Expr
  | .const value => if pred (.const value) then some (replace (.const value)) else none
  | .var id => if pred (.var id) then some (replace (.var id)) else none
  | .peek => if pred .peek then some (replace .peek) else none
  | .binary op lhs rhs =>
    if pred (.binary op lhs rhs) then some (replace (.binary op lhs rhs))
    else
      match lhs.substitute? pred replace, rhs.substitute? pred replace with
      | none, none => none
      | newLhs, newRhs => some (combine op (newLhs.getD lhs) (newRhs.getD rhs))
  | .not operand =>
    if pred (.not operand) then some (replace (.not operand))
    else (operand.substitute? pred replace).map negation
  | .boolCast operand =>
    if pred (.boolCast operand) then some (replace (.boolCast operand))
    else (operand.substitute? pred replace).map truth
  | .memory x y =>
    if pred (.memory x y) then some (replace (.memory x y))
    else
      match x.substitute? pred replace, y.substitute? pred replace with
      | none, none => none
      | newX, newY => some (.memory (newX.getD x) (newY.getD y))

/-- Replaces every outermost node that satisfies the predicate. -/
def substitute (pred : Expr → Bool) (replace : Expr → Expr) (expr : Expr) : Expr :=
  (expr.substitute? pred replace).getD expr

end Expr

end StackFlow
