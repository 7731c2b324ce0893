import StackFlow.Dialect
import StackFlow.Text.Quoted

/-!
# The listing dialect

Pseudo-code for human readers: one short line for each vertex, infix expressions in parentheses.
-/

namespace StackFlow

namespace Format

/-- The ending of the names of input and output instructions. -/
def listingName : Format → String
  | .number => "int"
  | .character => "char"

end Format

/-- How a listing writes expressions. A relation is already a test, and a cast is the test of its
operand. -/
def ExprDialect.listing : ExprDialect where
  const value _ := value.decimal
  var id _ := id.text
  binary op lhs rhs wide := "(" ++ lhs (.value wide) ++ op.symbol ++ rhs (.value wide) ++ ")"
  not operand wide := "!" ++ operand (.value wide)
  boolCast operand wide := "bool(" ++ operand (.value wide) ++ ")"
  peek _ := "peek()"
  memory x y wide := "gr[" ++ x (.value wide) ++ "," ++ y (.value wide) ++ "]"
  truthy code := code ++ "!=0"
  binaryCondition op lhs rhs :=
    let code := "(" ++ lhs (.value false) ++ op.symbol ++ rhs (.value false) ++ ")"
    if op.isRelation then code else code ++ "!=0"
  notCondition operand := operand (.value false) ++ "==0"
  boolCastCondition operand := operand .condition

/-- How a listing writes programs. -/
def Dialect.listing : Dialect where
  toExprDialect := ExprDialect.listing
  nop := "nop"
  push value := "push " ++ value (.value false)
  pop := "pop"
  dup := "dup"
  swap := "swap"
  math op := "math " ++ op.symbol
  negate := "not"
  get := "get"
  set := "set"
  load x y := "push gr[" ++ x (.value false) ++ "," ++ y (.value false) ++ "]"
  store x y value :=
    "gr[" ++ x (.value false) ++ "," ++ y (.value false) ++ "] = " ++ value (.value false)
  varGet var := "push " ++ var.text
  varSet var := var.text ++ " = pop"
  assign var value := var.text ++ " = " ++ value (.value false)
  output format := "out_" ++ format.listingName ++ " pop"
  print value format := "out_" ++ format.listingName ++ " " ++ value (.value false)
  printText text := "out_str " ++ Text.quoted text
  input format := "push in_" ++ format.listingName
  inputVar var format := var.text ++ " = in_" ++ format.listingName
  decision onTrue onFalse := "if pop goto " ++ onTrue.repr ++ " else " ++ onFalse.repr
  exprDecision test onTrue onFalse :=
    "if " ++ test .condition ++ " goto " ++ onTrue.repr ++ " else " ++ onFalse.repr
  random targets := "random " ++ " ".intercalate (targets.map Nat.repr)
  jump target := "goto " ++ target.repr
  exit := "exit"
  block lines := "; ".intercalate lines

/-- The expression as a listing writes it. -/
def Expr.text (expr : Expr) : String :=
  expr.render ExprDialect.listing (.value false)

end StackFlow
