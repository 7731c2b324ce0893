import StackFlow.Expr.Basic

/-!
# Dialects

A dialect says how each construct of a program is written in some target language. Every construct
has its own field, so a dialect needs to know how to write one construct at a time. Parts of a
construct arrive as functions that write the part where and how the dialect asks for it.

An expression is written in one of two settings: as a value, where a flag tells extended integers
from fixed-width ones, or as the condition of a branch. A dialect that says nothing about conditions
compares values with zero.
-/

namespace StackFlow

/-- What an expression is written for. -/
inductive Setting where
  /-- For its value, with extended integers if `wide`. -/
  | value (wide : Bool)
  /-- As the condition of a branch. -/
  | condition
deriving DecidableEq

/-- A part of a construct, ready to be written in any setting. -/
abbrev Part := Setting → String

/-- How expressions are written. -/
structure ExprDialect where
  const : Word → Bool → String
  var : VarId → Bool → String
  binary : Operator → Part → Part → Bool → String
  not : Part → Bool → String
  boolCast : Part → Bool → String
  peek : Bool → String
  memory : Part → Part → Bool → String
  /-- A written value, as a test for being nonzero. -/
  truthy : String → String := fun code => "(" ++ code ++ ") != 0"
  constCondition : Word → String := fun value => truthy (const value false)
  varCondition : VarId → String := fun id => truthy (var id false)
  binaryCondition : Operator → Part → Part → String :=
    fun op lhs rhs => truthy (binary op lhs rhs false)
  notCondition : Part → String := fun operand => truthy (not operand false)
  boolCastCondition : Part → String := fun operand => truthy (boolCast operand false)
  peekCondition : String := truthy (peek false)
  memoryCondition : Part → Part → String := fun x y => truthy (memory x y false)

namespace Expr

/-- The expression as the dialect writes it in the given setting. -/
def render (dialect : ExprDialect) : Expr → Part
  | .const value, .value wide => dialect.const value wide
  | .const value, .condition => dialect.constCondition value
  | .var id, .value wide => dialect.var id wide
  | .var id, .condition => dialect.varCondition id
  | .binary op lhs rhs, .value wide =>
    dialect.binary op (lhs.render dialect) (rhs.render dialect) wide
  | .binary op lhs rhs, .condition =>
    dialect.binaryCondition op (lhs.render dialect) (rhs.render dialect)
  | .not operand, .value wide => dialect.not (operand.render dialect) wide
  | .not operand, .condition => dialect.notCondition (operand.render dialect)
  | .boolCast operand, .value wide => dialect.boolCast (operand.render dialect) wide
  | .boolCast operand, .condition => dialect.boolCastCondition (operand.render dialect)
  | .peek, .value wide => dialect.peek wide
  | .peek, .condition => dialect.peekCondition
  | .memory x y, .value wide => dialect.memory (x.render dialect) (y.render dialect) wide
  | .memory x y, .condition => dialect.memoryCondition (x.render dialect) (y.render dialect)

end Expr

/-- How input and output treat a word. -/
inductive Format where
  /-- As a decimal number. -/
  | number
  /-- As the character with that code. -/
  | character
deriving DecidableEq

/-- How whole programs are written. Targets of jumps are positions in the laid-out program. -/
structure Dialect extends ExprDialect where
  nop : String
  push : Part → String
  pop : String
  dup : String
  swap : String
  math : Operator → String
  negate : String
  get : String
  set : String
  load : Part → Part → String
  store : Part → Part → Part → String
  varGet : VarId → String
  varSet : VarId → String
  assign : VarId → Part → String
  output : Format → String
  print : Part → Format → String
  printText : String → String
  input : Format → String
  inputVar : VarId → Format → String
  decision : Nat → Nat → String
  exprDecision : Part → Nat → Nat → String
  random : List Nat → String
  jump : Nat → String
  exit : String
  /-- Joins the lines of a fused block. -/
  block : List String → String := fun lines => "\n".intercalate lines

end StackFlow
