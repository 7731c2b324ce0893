/-!
# Source positions

Where on the program grid a vertex was read, and in which direction. Positions are carried along for
reports and never decide what a program does.
-/

namespace StackFlow

/-- A cell of the program grid. -/
structure Position where
  x : Int
  y : Int
deriving DecidableEq

namespace Position

/-- Positions are written `(x|y)`. -/
def text (position : Position) : String :=
  "(" ++ position.x.repr ++ "|" ++ position.y.repr ++ ")"

/-- The first list, followed by the positions of the second that are not in it, each once and in
order. -/
def merge (known more : List Position) : List Position :=
  known ++ (more.filter (· ∉ known)).eraseDups

end Position

/-- The direction in which the grid was read. -/
inductive Direction where
  | right
  | down
  | left
  | up
deriving DecidableEq

end StackFlow
