import StackFlow.Branches
import StackFlow.Cells
import StackFlow.Graph.Validity
import StackFlow.Optimizer.Config
import StackFlow.Optimizer.Stats
import StackFlow.Promotion.Assignment
import StackFlow.Rule.Apply
import StackFlow.Rule.Catalog

/-!
# The optimizer

The passes run in this order:

* rounds of peephole rules, branch folding and promotion of constant cells, until a round changes
  nothing;
* promotion of stack values, and more rounds if any value was promoted;
* fusion of straight runs into blocks;
* the worst-case depth of what has become of the program.
-/

namespace StackFlow

open Optimizer

/-- An optimizer with its settings and everything it has done so far. -/
structure Optimizer where
  config : Config
  stats : Stats := {}
deriving DecidableEq

namespace Optimizer

/-- A program on its way through the passes. -/
structure Progress where
  graph : Graph
  stats : Stats

/-- Fails if the graph is to be checked and breaks a rule. -/
def check (config : Config) (graph : Graph) : Except GraphError Unit :=
  if config.validate then graph.validate else .ok ()

/-- Scans the graph once with each peephole rule; tells whether anything changed. -/
def runPeephole (config : Config) : List Rule → Progress → Except GraphError (Progress × Bool)
  | [], progress => .ok (progress, false)
  | rule :: rules, progress => do
    let (graph, applied) ← rule.apply progress.graph
    if applied = 0 then runPeephole config rules { progress with graph := graph }
    else
      check config graph
      let stats := { progress.stats with
        peephole := progress.stats.peephole + applied
        rules := Stats.bump rule.name applied progress.stats.rules }
      let (final, _) ← runPeephole config rules ⟨graph, stats⟩
      return (final, true)

/-- Folds branches; tells whether anything changed. -/
def runBranches (config : Config) (progress : Progress) : Except GraphError (Progress × Bool) := do
  let (graph, folded) ← progress.graph.foldBranches
  if folded = 0 then .ok ({ progress with graph := graph }, false)
  else
    check config graph
    let stats := { progress.stats with
      branches := progress.stats.branches + folded
      unreachable := progress.stats.unreachable + (progress.graph.size - graph.size) }
    return (⟨graph, stats⟩, true)

/-- Promotes constant cells; tells whether anything changed. -/
def runCells (config : Config) (progress : Progress) : Except GraphError (Progress × Bool) :=
  let (graph, cells) := progress.graph.promoteCells
  if cells = 0 then .ok (progress, false)
  else do
    check config graph
    return (⟨graph, { progress.stats with cells := progress.stats.cells + cells }⟩, true)

/-- Runs a pass if it is enabled. -/
def optionally (enabled : Bool) (pass : Progress → Except GraphError (Progress × Bool))
    (progress : Progress) : Except GraphError (Progress × Bool) :=
  if enabled then pass progress else .ok (progress, false)

/-- One round of simplification; tells whether anything changed. -/
def round (config : Config) (progress : Progress) : Except GraphError (Progress × Bool) := do
  let begun :=
    { progress with stats := { progress.stats with iterations := progress.stats.iterations + 1 } }
  let (progress, replaced) ← optionally config.peephole (runPeephole config Rule.peephole) begun
  let (progress, folded) ← optionally config.foldBranches (runBranches config) progress
  let (progress, promoted) ← optionally config.promoteCells (runCells config) progress
  return (progress, replaced || folded || promoted)

/-- Rounds until one changes nothing, at most as many as given; tells whether such a round was
reached. -/
def simplify (config : Config) : Nat → Progress → Except GraphError (Progress × Bool)
  | 0, progress => .ok (progress, false)
  | rounds + 1, progress => do
    let (progress, changed) ← round config progress
    if changed then simplify config rounds progress else return (progress, true)

/-- Promotes stack values, and simplifies again if there were any; tells whether the simplification
came to an end. -/
def runValues (config : Config) (progress : Progress) : Except GraphError (Progress × Bool) := do
  let (graph, values) ← progress.graph.promoteValues config.depthLimit
  if values = 0 then .ok ({ progress with graph := graph }, true)
  else
    check config graph
    simplify config config.maxIterations
      ⟨graph, { progress.stats with values := progress.stats.values + values }⟩

/-- Scans the graph with each fusion rule until nothing changes; counts the chains replaced. -/
def runFusion (config : Config) : List Rule → Progress → Except GraphError (Progress × Nat)
  | [], progress => .ok (progress, 0)
  | rule :: rules, progress => do
    let (graph, applied) ← rule.saturate config.maxIterations progress.graph
    let stats :=
      if applied = 0 then progress.stats
      else { progress.stats with rules := Stats.bump rule.name applied progress.stats.rules }
    let (final, others) ← runFusion config rules ⟨graph, stats⟩
    return (final, applied + others)

/-- Fuses straight runs into blocks. -/
def runBlocks (config : Config) (progress : Progress) : Except GraphError Progress := do
  let (progress, fused) ← runFusion config Rule.fusion progress
  if fused = 0 then .ok progress
  else
    check config progress.graph
    return { progress with
      stats := { progress.stats with blocks := progress.stats.blocks + fused } }

/-- Runs all enabled passes; tells whether every simplification came to an end. -/
def runPasses (config : Config) (progress : Progress) : Except GraphError (Progress × Bool) := do
  let (progress, settled) ← simplify config config.maxIterations progress
  let (progress, settledAgain) ←
    if config.promoteValues then runValues config progress else .ok (progress, true)
  let progress ← if config.fuseBlocks then runBlocks config progress else .ok progress
  return (progress, settled && settledAgain)

/-- Runs all enabled passes; gives the optimizer afterwards, the new graph and the report. -/
def optimize (optimizer : Optimizer) (graph : Graph) :
    Except GraphError (Optimizer × Graph × Report) := do
  let config := optimizer.config
  check config graph
  let (progress, settled) ← runPasses config ⟨graph, optimizer.stats⟩
  let stackSize ← progress.graph.stackSize
  return ({ optimizer with stats := progress.stats }, progress.graph,
    ⟨progress.stats, stackSize, settled⟩)

/-- A fresh optimizer. -/
def ofConfig (config : Config) : Optimizer where
  config := config

end Optimizer

namespace Graph

/-- Optimizes the graph with the default settings. -/
def optimize (graph : Graph) : Except GraphError (Graph × Report) := do
  let (_, optimized, report) ← (Optimizer.ofConfig .default).optimize graph
  return (optimized, report)

end Graph

end StackFlow
