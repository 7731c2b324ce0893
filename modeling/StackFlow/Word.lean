/-!
# Machine words

Every value of the stack machine is a 64-bit word in two's complement. Arithmetic wraps, comparison
is signed.
-/

namespace StackFlow

/-- A value on the stack, in a grid cell or in a variable. -/
abbrev Word := Int64

namespace Word

/-- Decimal digits, with a minus sign in front of a negative word. -/
def decimal (word : Word) : String :=
  match word.toInt with
  | .ofNat magnitude => magnitude.repr
  | .negSucc below => "-" ++ (below + 1).repr

end Word

/-- Handle of a declared variable. -/
structure VarId where
  /-- Position in the list of declarations. -/
  index : Nat
deriving DecidableEq

/-- Variables are written `x0`, `x1`, and so on. -/
def VarId.text (var : VarId) : String :=
  "x" ++ var.index.repr

end StackFlow
