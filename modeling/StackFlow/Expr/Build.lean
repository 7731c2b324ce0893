import StackFlow.Expr.Basic

/-!
# Building expressions

`combine`, `negation` and `truth` build the tree for an operation on trees that are already built,
and simplify while they do: constants fold, neutral operands vanish, offsets and factors collect
into one literal, and a negated relation becomes the opposite relation.

An operand is dropped only where its value cannot matter, as in `x * 0`. Evaluating it would only
read the state, so nothing else is lost.
-/

namespace StackFlow

namespace Expr

/-- A term, possibly negated, plus a literal offset. -/
structure Linear where
  /-- The part that is not a literal. -/
  term : Expr
  /-- The term is subtracted and not added. -/
  negated : Bool
  /-- The literal that is added. -/
  offset : Word

/-- The linear form of `t + c`, `c + t`, `t - c` and `c - t` for a literal `c` and a `t` that is
none. -/
def linear? : Expr → Option Linear
  | .binary .add lhs rhs =>
    match lhs.constant?, rhs.constant? with
    | none, some offset => some ⟨lhs, false, offset⟩
    | some offset, none => some ⟨rhs, false, offset⟩
    | _, _ => none
  | .binary .sub lhs rhs =>
    match lhs.constant?, rhs.constant? with
    | none, some offset => some ⟨lhs, false, -offset⟩
    | some offset, none => some ⟨rhs, true, offset⟩
    | _, _ => none
  | _ => none

/-- The tree of a linear form: one addition or one subtraction, and none at all for a zero offset.
The least word has no opposite, so it is added although it is negative. -/
def Linear.toExpr (form : Linear) : Expr :=
  if form.negated then .binary .sub (.const form.offset) form.term
  else if form.offset = 0 then form.term
  else if form.offset < 0 ∧ form.offset ≠ Int64.minValue
    then .binary .sub form.term (.const (-form.offset))
  else .binary .add form.term (.const form.offset)

/-- The tree that compares a linear form with a literal, with the offset moved to the literal's
side. -/
def Linear.compare (form : Linear) (op : Operator) (literal : Word) : Expr :=
  let target := if form.negated then form.offset - literal else literal - form.offset
  .binary op form.term (.const target)

/-- The factors of `t * c` and `c * t` for a literal `c` and a `t` that is none. -/
def scaled? : Expr → Option (Expr × Word)
  | .binary .mul lhs rhs =>
    match lhs.constant?, rhs.constant? with
    | none, some factor => some (lhs, factor)
    | some factor, none => some (rhs, factor)
    | _, _ => none
  | _ => none

/-- The tree of `expr * factor`. Literal factors inside the expression are collected into one. -/
def scale : Expr → Word → Expr
  | .const value, factor => .const (value * factor)
  | .binary .mul lhs rhs, factor =>
    if factor = 1 then .binary .mul lhs rhs
    else if factor = 0 then .const 0
    else
      match lhs.constant?, rhs.constant? with
      | none, some inner => lhs.scale (factor * inner)
      | some inner, none => rhs.scale (factor * inner)
      | _, _ => .binary .mul (.binary .mul lhs rhs) (.const factor)
  | expr, factor =>
    if factor = 1 then expr
    else if factor = 0 then .const 0
    else .binary .mul expr (.const factor)

/-- The tree of `expr op literal` for an expression that is no literal. -/
def combineRight (op : Operator) (expr : Expr) (literal : Word) : Expr :=
  let plain := binary op expr (.const literal)
  match op with
  | .add =>
    if literal = 0 then expr
    else match expr.linear? with
      | some form => { form with offset := form.offset + literal }.toExpr
      | none => plain
  | .sub =>
    if literal = 0 then expr
    else match expr.linear? with
      | some form => { form with offset := form.offset - literal }.toExpr
      | none => plain
  | .mul => expr.scale literal
  | .div => if literal = 1 then expr else plain
  | .mod => if literal = 1 then .const 0 else plain
  | .eq | .ne =>
    match expr.linear? with
    | some form => form.compare op literal
    | none => plain
  | .gt | .lt | .ge | .le => plain

/-- The tree of `literal op expr` for an expression that is no literal. -/
def combineLeft (op : Operator) (literal : Word) (expr : Expr) : Expr :=
  let plain := binary op (.const literal) expr
  match op with
  | .add =>
    if literal = 0 then expr
    else match expr.linear? with
      | some form => { form with offset := form.offset + literal }.toExpr
      | none => plain
  | .sub =>
    match expr.linear? with
    | some form => { form with negated := !form.negated, offset := literal - form.offset }.toExpr
    | none => plain
  | .mul =>
    if literal = 1 then expr
    else if literal = 0 then .const 0
    else match expr.scaled? with
      | some (term, factor) => term.scale (literal * factor)
      | none => plain
  | .div | .mod => if literal = 0 then .const 0 else plain
  | .eq | .ne =>
    match expr.linear? with
    | some form => form.compare op literal
    | none => plain
  | .gt | .lt | .ge | .le => plain

/-- The simplified tree of `lhs op rhs`. -/
def combine (op : Operator) (lhs rhs : Expr) : Expr :=
  match lhs.constant?, rhs.constant? with
  | some left, some right => .const (op.evaluate left right)
  | none, some literal => lhs.combineRight op literal
  | some literal, none => rhs.combineLeft op literal
  | none, none => .binary op lhs rhs

/-- The simplified tree that yields zero for zero and one for all else. -/
def truth (expr : Expr) : Expr :=
  match expr.constant? with
  | some value => .const (if value = 0 then 0 else 1)
  | none => if expr.isBoolean then expr else .boolCast expr

/-- The simplified tree that yields one for zero and zero for all else. -/
def negation : Expr → Expr
  | .const value => .const (if value = 0 then 1 else 0)
  | .not operand => operand.truth
  | .boolCast operand => operand.negation
  | .binary op lhs rhs =>
    match op.negated? with
    | some opposite => .binary opposite lhs rhs
    | none => .not (.binary op lhs rhs)
  | .var id => .not (.var id)
  | .peek => .not .peek
  | .memory x y => .not (.memory x y)

end Expr

end StackFlow
