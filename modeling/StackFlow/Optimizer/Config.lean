/-!
# Optimizer settings
-/

namespace StackFlow.Optimizer

/-- Which passes run and how far they may go. -/
structure Config where
  /-- The greatest number of rounds, and of scans of a fusion rule. -/
  maxIterations : Nat := 1024
  /-- Run the peephole rules. -/
  peephole : Bool := true
  /-- Fold branches. -/
  foldBranches : Bool := true
  /-- Move constant cells to variables. -/
  promoteCells : Bool := true
  /-- Move stack values to variables. -/
  promoteValues : Bool := true
  /-- Fuse straight runs into blocks. -/
  fuseBlocks : Bool := true
  /-- Check the graph after every pass that changed it. -/
  validate : Bool := true
  /-- The number of depths at which a vertex is looked at before its values stay on the stack. -/
  depthLimit : Nat := 32
deriving DecidableEq

namespace Config

/-- Every pass runs. -/
def default : Config := {}

/-- No pass changes the graph. -/
def inert : Config where
  peephole := false
  foldBranches := false
  promoteCells := false
  promoteValues := false
  fuseBlocks := false

end Config

end StackFlow.Optimizer
