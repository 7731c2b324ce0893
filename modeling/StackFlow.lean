import StackFlow.Behaviour
import StackFlow.Graph.Layout
import StackFlow.Optimizer
import StackFlow.Optimizer.Settings
import StackFlow.Proofs.Depth.Exploration
import StackFlow.Proofs.Expr.Meaning
import StackFlow.Proofs.Optimizer
import StackFlow.Proofs.Rule.Catalog
import StackFlow.Proofs.Expr.NormalForm
import StackFlow.Proofs.Graph.Layout
import StackFlow.Proofs.Depth.Comparison
import StackFlow.Proofs.Rule.Depth
import StackFlow.Proofs.Promotion.Depth
import StackFlow.Proofs.Depth.Passes
import StackFlow.Proofs.Termination.Rank
import StackFlow.Proofs.Termination.Branches
import StackFlow.Proofs.Termination.Extraction
import StackFlow.Proofs.Termination.Splicing
import StackFlow.Proofs.Termination.Cells
import StackFlow.Proofs.Termination.Rounds
import StackFlow.Proofs.Behaviour.Records
import StackFlow.Proofs.Effects
import StackFlow.Proofs.Depth.Termination
import StackFlow.Proofs.Branches.Totality
import StackFlow.Proofs.Cells.Census
import StackFlow.Proofs.Promotion.Totality
import StackFlow.Proofs.Promotion.Rewriting
import StackFlow.Proofs.Promotion.DefiniteAssignment
import StackFlow.Proofs.Promotion.Trees
import StackFlow.Proofs.Graph.Pruning
import StackFlow.Proofs.Graph.Jumps
import StackFlow.Proofs.Optimizer.FixedPoint
import StackFlow.Proofs.Expr.Text
import StackFlow.Proofs.Promotion.Termination
import StackFlow.Proofs.Depth.Detection
import StackFlow.Proofs.Graph.Traversal
