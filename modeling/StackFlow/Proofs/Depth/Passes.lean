import Mathlib
import StackFlow.Proofs.Optimizer
import StackFlow.Proofs.Promotion.Depth
import StackFlow.Proofs.Rule.Depth

/-!
# No pass raises the stack bound

None of the passes makes a program deeper than it was. Rules put cheaper vertices in
the place of others. Folding branches takes paths away and leaves the others as deep
as they were. Moving cells to variables leaves all depths alone, and moving values to
variables takes values off the stack.

So a program with a bound has one after each pass as well, and it is no greater.
-/

namespace StackFlow

namespace Kind

variable {kind other : Kind}

theorem FoldsTo.depthAfter_eq (folds : kind.FoldsTo other) (depth : Nat) :
    other.depthAfter depth = kind.depthAfter depth := by
  rcases folds with collapsed | negation
  · cases kind <;> cases collapsed <;>
      simp [depthAfter, depthAfterOps, ops, popsTest, exit, Op.depthAfter, Op.pops, Op.pushes]
  · rcases unnegated?_spec negation with ⟨operand, ops, exit, otherExit⟩
    simp [depthAfter, depthAfterOps, popsTest, ops, exit, otherExit]

theorem FoldsTo.peak_eq (folds : kind.FoldsTo other) (depth : Nat) :
    other.peak depth = kind.peak depth := by
  rcases folds with collapsed | negation
  · cases kind with
    | single | block => cases collapsed
    | decision | exprDecision | random =>
        cases collapsed
        simp [peak, ops, peakOf, Op.depthAfter, Op.pops, Op.pushes]
    | decisionBlock body =>
        cases collapsed
        have ends := foldl_depthAfter_le_peakOf body depth
        have pops (depth : Nat) : Op.pop.depthAfter depth = depth - 1 := rfl
        simp only [peak, ops, peakOf_append, peakOf, pops]
        omega
    | exprDecisionBlock => cases collapsed; rfl
  · rcases unnegated?_spec negation with ⟨operand, ops, -, -⟩
    rw [peak, ops, peak]

end Kind

namespace CellMap

variable (map : CellMap)

theorem depthAfter_op (op : Op) (depth : Nat) :
    (map.op op).depthAfter depth = op.depthAfter depth := by
  cases op with
  | load x y =>
      simp only [CellMap.op, Op.mapExpressions]
      split <;> rfl
  | store x y value =>
      simp only [CellMap.op, Op.mapExpressions]
      split <;> rfl
  | _ => rfl

theorem foldl_depthAfter_map (ops : List Op) (depth : Nat) :
    (ops.map map.op).foldl (fun current op => op.depthAfter current) depth =
      ops.foldl (fun current op => op.depthAfter current) depth := by
  simp only [List.foldl_map, depthAfter_op]

theorem peakOf_map (ops : List Op) (depth : Nat) :
    Kind.peakOf (ops.map map.op) depth = Kind.peakOf ops depth := by
  induction ops generalizing depth with
  | nil => rfl
  | cons op ops ih => rw [List.map_cons, Kind.peakOf, Kind.peakOf, depthAfter_op, ih]

theorem depthAfter_map (kind : Kind) (depth : Nat) :
    (kind.map map.op map.expr).depthAfter depth = kind.depthAfter depth := by
  have pops : (kind.map map.op map.expr).popsTest = kind.popsTest := by cases kind <;> rfl
  rw [Kind.depthAfter, Kind.depthAfterOps, Kind.ops_map, foldl_depthAfter_map, pops,
    Kind.depthAfter, Kind.depthAfterOps]

theorem peak_map (kind : Kind) (depth : Nat) :
    (kind.map map.op map.expr).peak depth = kind.peak depth := by
  rw [Kind.peak, Kind.ops_map, peakOf_map, Kind.peak]

end CellMap

namespace Graph

variable {graph other : Graph}

theorem FoldedAt.noDeeper {id : VertexId} (folded : graph.FoldedAt id other)
    (consistent : graph.Consistent) : graph.NoDeeper other := by
  apply noDeeper_of_view (folded.folds consistent).root
  intro source after found
  rcases folded.view found with ⟨before, foundBefore, leads, atBranch, elsewhere⟩
  refine ⟨before, foundBefore, ?_, ?_, leads.subset⟩
  · intro depth
    by_cases same : source = id
    · exact ((atBranch same).depthAfter_eq depth).le
    · rw [elsewhere same]
  · intro depth
    by_cases same : source = id
    · exact ((atBranch same).peak_eq depth).le
    · rw [elsewhere same]

theorem noDeeper_of_folding (run : Relation.TransGen Folding graph other) :
    graph.NoDeeper other := by
  induction run with
  | single step =>
      rcases step with ⟨consistent, id, folded⟩
      exact folded.noDeeper consistent
  | tail _ step ih =>
      rcases step with ⟨consistent, id, folded⟩
      exact ih.trans (folded.noDeeper consistent)

theorem noDeeper_dropUnreachable {root : VertexId} (start : graph.root = some root) :
    graph.NoDeeper graph.dropUnreachable := by
  have root : graph.dropUnreachable.root = graph.root := rfl
  apply noDeeper_of_view root
  intro id after found
  rcases exists_before start found with ⟨-, before, foundBefore, kind, leads⟩
  refine ⟨before, foundBefore, fun depth => by rw [kind], fun depth => by rw [kind], ?_⟩
  rw [leads]
  exact List.Subset.refl _

theorem foldBranches_noDeeper (valid : graph.Valid) {count : Nat}
    (result : graph.foldBranches = .ok (other, count)) : graph.NoDeeper other := by
  rcases valid_iff.mp valid with ⟨consistent, root, start, -, -⟩
  rcases foldBranches_run consistent result with ⟨-, rfl⟩ | ⟨-, folded, run, rfl⟩
  · exact .refl other
  · have foldedStart : folded.root = some root := (folds_of_folding run).root.trans start
    exact (noDeeper_of_folding run).trans (noDeeper_dropUnreachable foldedStart)

theorem noDeeper_withCells (graph : Graph) : graph.NoDeeper graph.withCells := by
  have rekinded := graph.withCells_rekinded
  apply noDeeper_of_view rekinded.root
  intro id after found
  rcases rekinded.exists_vertex found with ⟨before, foundBefore, rfl⟩
  refine ⟨before, foundBefore, ?_, ?_, List.Subset.refl _⟩
  · intro depth
    exact (graph.cellMap.depthAfter_map before.kind depth).le
  · intro depth
    exact (graph.cellMap.peak_map before.kind depth).le

/-- The passes over a graph, with a rule of the optimizer or with a limit where they take one. -/
inductive Pass where
  | apply (rule : Rule) (listed : rule ∈ Rule.peephole ∨ rule ∈ Rule.fusion)
  | foldBranches
  | promoteCells
  | promoteValues (limit : Nat)

/-- The new graph and how much has changed. -/
def Pass.run (graph : Graph) : Pass → Except GraphError (Graph × Nat)
  | .apply rule _ => rule.apply graph
  | .foldBranches => graph.foldBranches
  | .promoteCells => .ok graph.promoteCells
  | .promoteValues limit => graph.promoteValues limit

theorem Pass.run_noDeeper {pass : Pass} {count : Nat} (valid : graph.Valid)
    (result : pass.run graph = .ok (other, count)) :
    graph.NoDeeper other ∧ (other.Valid ∨ other.RootLost) := by
  cases pass with
  | apply rule listed =>
      have reliable : rule.Reliable :=
        listed.elim Rule.reliable_of_mem_peephole Rule.reliable_of_mem_fusion
      rcases Rule.apply_eq_ok_iff.mp result with ⟨-, rfl, -⟩
      exact ⟨Rule.scan_noDeeper reliable valid, .inl (rule.scan_valid valid).1⟩
  | foldBranches =>
      exact ⟨foldBranches_noDeeper valid result, foldBranches_valid_or_lost valid result⟩
  | promoteCells =>
      have same : graph.promoteCells.1 = other := congrArg Prod.fst (Except.ok.inj result)
      rw [← same]
      rcases graph.promoteCells_eq with unchanged | ⟨-, moved⟩
      · rw [unchanged]
        exact ⟨.refl graph, .inl valid⟩
      · rw [moved]
        rcases valid_iff.mp valid with ⟨consistent, rooted⟩
        have rekinded := graph.withCells_rekinded
        exact ⟨graph.noDeeper_withCells,
          .inl (valid_iff.mpr ⟨rekinded.consistent consistent, rekinded.rooted rooted⟩)⟩
  | promoteValues limit =>
      rcases promoteValues_noDeeper valid result with ⟨otherValid, noDeeper⟩
      exact ⟨noDeeper, .inl otherValid⟩

/-- No pass raises the bound of the stack. If the stack of a valid program has a bound, and a pass
leaves a program whose stack size can be told, that program has a bound too, and it is no
greater. -/
theorem stackSize_not_raised {pass : Pass} {count bound : Nat} {size : StackSize}
    (valid : graph.validate = .ok ()) (bounded : graph.stackSize = .ok (.bounded bound))
    (result : pass.run graph = .ok (other, count)) (sized : other.stackSize = .ok size) :
    ∃ least ≤ bound, size = .bounded least := by
  rw [validate_eq_ok_iff] at valid
  rcases pass.run_noDeeper valid result with ⟨noDeeper, otherValid | lost⟩
  · apply exists_bounded_of_noDeeper noDeeper (describes_of_stackSize valid bounded) otherValid
    exact describes_of_stackSize otherValid sized
  · exact absurd sized lost.stackSize_ne_ok

/-- The loop that prints the number one, with the number and its copy in variables. -/
def printingVariables : Graph where
  slots := #[
    some { kind := .single (.assign ⟨0⟩ (.const 1)), children := [⟨1⟩], parents := [⟨3⟩] },
    some { kind := .single (.assign ⟨1⟩ (.var ⟨0⟩)), children := [⟨2⟩], parents := [⟨0⟩] },
    some { kind := .single (.print (.var ⟨1⟩) .number), children := [⟨3⟩], parents := [⟨1⟩] },
    some { kind := .exprDecision (.var ⟨0⟩), children := [⟨0⟩, ⟨4⟩], parents := [⟨2⟩] },
    some { kind := .single .nop, parents := [⟨3⟩] }]
  root := some ⟨0⟩
  grid := .blank 0 0
  vars := #[⟨0, true⟩, ⟨0, true⟩]

theorem stackSize_not_raised_printingLoop :
    printingLoop.validate = .ok () ∧ printingLoop.stackSize = .ok (.bounded 2) ∧
      (Pass.promoteValues 4).run printingLoop = .ok (printingVariables, 2) ∧
      printingVariables.stackSize = .ok (.bounded 0) ∧
        ∃ least ≤ 2, StackSize.bounded 0 = .bounded least := by
  have valid : printingLoop.validate = .ok () := by decide +kernel
  have bounded : printingLoop.stackSize = .ok (.bounded 2) :=
    stackSize_of_within? 20 (by decide +kernel)
  have result : (Pass.promoteValues 4).run printingLoop = .ok (printingVariables, 2) := by
    decide +kernel
  have sized : printingVariables.stackSize = .ok (.bounded 0) :=
    stackSize_of_within? 20 (by decide +kernel)
  exact ⟨valid, bounded, result, sized, stackSize_not_raised valid bounded result sized⟩

end Graph

end StackFlow
