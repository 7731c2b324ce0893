/-!
# Effects

What an expression, an op or a whole program touches when it runs. A code generator takes the union
over the graph to decide whether it needs a stack, a grid or any input and output at all.
-/

namespace StackFlow

/-- The parts of the machine that something touches. -/
structure Effects where
  /-- Reads or writes the operand stack. -/
  stack : Bool := false
  /-- Reads or writes the memory grid. -/
  grid : Bool := false
  /-- Reads or writes a variable. -/
  vars : Bool := false
  /-- Writes to the output stream. -/
  output : Bool := false
  /-- Waits for the input stream. -/
  input : Bool := false
  /-- Picks a successor at random. -/
  random : Bool := false
deriving DecidableEq

namespace Effects

/-- Touches nothing. -/
def none : Effects := {}

/-- Touches whatever one of the two touches. -/
def union (first second : Effects) : Effects where
  stack := first.stack || second.stack
  grid := first.grid || second.grid
  vars := first.vars || second.vars
  output := first.output || second.output
  input := first.input || second.input
  random := first.random || second.random

instance : Union Effects := ⟨union⟩

/-- Touches whatever some member of the list touches. -/
def unionAll (effects : List Effects) : Effects :=
  effects.foldl union none

/-- Nothing is touched. -/
def isPure (effects : Effects) : Bool :=
  effects = none

end Effects

end StackFlow
