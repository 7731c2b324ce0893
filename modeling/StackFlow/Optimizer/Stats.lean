import StackFlow.Depth

/-!
# What the optimizer did

Counts of changes, by pass and by rule, and the report of a run.
-/

namespace StackFlow.Optimizer

/-- Counts of changes. -/
structure Stats where
  /-- Rounds begun. -/
  iterations : Nat := 0
  /-- Chains replaced by peephole rules. -/
  peephole : Nat := 0
  /-- Branches folded. -/
  branches : Nat := 0
  /-- Vertices dropped because the root did not reach them any more. -/
  unreachable : Nat := 0
  /-- Cells moved to variables. -/
  cells : Nat := 0
  /-- Stack values moved to variables. -/
  values : Nat := 0
  /-- Chains replaced by fusion rules. -/
  blocks : Nat := 0
  /-- Chains replaced by each rule, by name, in the order of the names. -/
  rules : List (String × Nat) := []
deriving DecidableEq

namespace Stats

/-- All changes to the graph. -/
def total (stats : Stats) : Nat :=
  stats.peephole + stats.branches + stats.unreachable + stats.cells + stats.values + stats.blocks

/-- Adds to the count of a name in a list that is ordered by name. -/
def bump (name : String) (count : Nat) : List (String × Nat) → List (String × Nat)
  | [] => [(name, count)]
  | (other, known) :: rest =>
    if name < other then (name, count) :: (other, known) :: rest
    else if name = other then (other, known + count) :: rest
    else (other, known) :: bump name count rest

/-- The chains replaced by the rule of the given name. -/
def countOf (stats : Stats) (name : String) : Nat :=
  (stats.rules.lookup name).getD 0

end Stats

/-- What a run of the optimizer found out. -/
structure Report where
  /-- Everything the optimizer has done so far. -/
  stats : Stats
  /-- How deep the stack of the resulting program can get. -/
  stackSize : StackSize
  /-- Every simplification came to an end by itself. -/
  converged : Bool
deriving DecidableEq

end StackFlow.Optimizer
