import Mathlib
import StackFlow.Proofs.Termination.Weighting

/-!
# The rank of a graph

Every change that a round of simplification makes lowers the rank of the graph. The
rank has four parts, and a part counts only where those before it stay the same:

* whether cells of the grid may still move to variables;
* how many ways there are to leave the vertices on cycles, beyond one for each;
* the least load of all weightings;
* how many negations the tests begin with.

Folding a branch on a cycle may open the cycle, and then more vertices can be copied
than before. This is why the branches on cycles come before the load. Folding a
negated test changes nothing but the test, which may be copied later on, so the
negations come last.
-/

namespace StackFlow

/-- The access has literal coordinates, and they lie outside the grid. -/
def MemoryAccess.Beyond (access : MemoryAccess) (grid : Grid) : Prop :=
  ∃ x y, access = .constant x y ∧ grid.contains x y = false

theorem MemoryAccess.Beyond.isConstant {access : MemoryAccess} {grid : Grid}
    (beyond : access.Beyond grid) : access.isConstant = true := by
  rcases beyond with ⟨x, y, rfl, -⟩
  rfl

/-- The number of negations around an expression. -/
def Expr.negations : Expr → ℕ
  | .not operand => operand.negations + 1
  | .const _ | .var _ | .binary _ _ _ | .boolCast _ | .peek | .memory _ _ => 0

/-- The number of negations around the test of a branch. -/
def Kind.negations (kind : Kind) : ℕ :=
  (kind.test?.map Expr.negations).getD 0

namespace Graph

/-- No cell of the grid can be accessed. -/
def Settled (graph : Graph) : Prop :=
  ∀ id vertex, graph.vertex? id = some vertex → ∀ access ∈ vertex.kind.memoryAccesses,
    access.Beyond graph.grid

open Classical in
/-- One while cells of the grid may be accessed, else zero. -/
noncomputable def unsettled (graph : Graph) : ℕ :=
  if graph.Settled then 0 else 1

/-- The ways to leave a vertex on a cycle, beyond the first. -/
def surplus (graph : Graph) (id : VertexId) : ℕ :=
  if graph.onCycle id then (graph.children id).length - 1 else 0

def loops (graph : Graph) : ℕ :=
  ∑ id ∈ graph.idSet, graph.surplus id

/-- The least load of all weightings. -/
noncomputable def leastLoad (graph : Graph) : ℕ :=
  sInf {total | ∃ share, graph.Weighting share ∧ graph.load share = total}

/-- The number of negations around the test of a vertex. -/
def negations (graph : Graph) (id : VertexId) : ℕ :=
  ((graph.vertex? id).map (·.kind.negations)).getD 0

def tests (graph : Graph) : ℕ :=
  ∑ id ∈ graph.idSet, graph.negations id

/-- What every change lowers. -/
noncomputable def rank (graph : Graph) : ℕ ×ₗ ℕ ×ₗ ℕ ×ₗ ℕ :=
  toLex (graph.unsettled, toLex (graph.loops, toLex (graph.leastLoad, graph.tests)))

variable {graph other third : Graph} {gain more : ℕ}

theorem unsettled_le (settled : graph.Settled → other.Settled) :
    other.unsettled ≤ graph.unsettled := by
  unfold unsettled
  split_ifs with otherSettled graphSettled graphSettled
  · exact le_rfl
  · exact Nat.zero_le _
  · exact absurd (settled graphSettled) otherSettled
  · exact le_rfl

theorem surplus_le {id source : VertexId}
    (cyclic : other.onCycle id = true → graph.onCycle source = true)
    (length : (other.children id).length ≤ (graph.children source).length) :
    other.surplus id ≤ graph.surplus source := by
  unfold surplus
  split_ifs with otherCyclic graphCyclic graphCyclic
  · exact Nat.sub_le_sub_right length 1
  · exact absurd (cyclic otherCyclic) graphCyclic
  · exact Nat.zero_le _
  · exact le_rfl

/-- The second graph is as good as the first where cells and cycles are concerned, and every
weighting of the first gives one of the second whose load is smaller by at least the gain. -/
structure Lightens (gain : ℕ) (graph other : Graph) : Prop where
  settled : graph.Settled → other.Settled
  loops : other.loops ≤ graph.loops
  weighting : ∀ {share}, graph.Weighting share →
    ∃ lower, other.Weighting lower ∧ other.load lower + gain ≤ graph.load share

namespace Lightens

theorem refl (graph : Graph) : Lightens 0 graph graph where
  settled settled := settled
  loops := le_rfl
  weighting weighting := ⟨_, weighting, le_rfl⟩

theorem trans (first : Lightens gain graph other) (second : Lightens more other third) :
    Lightens (gain + more) graph third where
  settled settled := second.settled (first.settled settled)
  loops := second.loops.trans first.loops
  weighting := by
    intro share weighting
    rcases first.weighting weighting with ⟨between, betweenWeighting, less⟩
    rcases second.weighting betweenWeighting with ⟨lower, lowerWeighting, least⟩
    exact ⟨lower, lowerWeighting, by omega⟩

theorem leastLoad_le (lightens : Lightens gain graph other) (consistent : graph.Consistent) :
    other.leastLoad + gain ≤ graph.leastLoad := by
  rcases exists_weighting consistent with ⟨weights, weighting⟩
  have attained : graph.leastLoad ∈
      {total | ∃ share, graph.Weighting share ∧ graph.load share = total} :=
    Nat.sInf_mem ⟨_, weights, weighting, rfl⟩
  rcases attained with ⟨share, weighting, least⟩
  rcases lightens.weighting weighting with ⟨lower, lowerWeighting, less⟩
  have below : other.leastLoad ≤ other.load lower := Nat.sInf_le ⟨lower, lowerWeighting, rfl⟩
  omega

end Lightens

theorem rank_lt_of_settled (unsettled : ¬graph.Settled) (settled : other.Settled) :
    other.rank < graph.rank := by
  apply Prod.Lex.toLex_lt_toLex.mpr
  left
  simp [Graph.unsettled, unsettled, settled]

theorem rank_lt_of_loops (settled : graph.Settled → other.Settled)
    (loops : other.loops < graph.loops) : other.rank < graph.rank := by
  apply Prod.Lex.toLex_lt_toLex'.mpr
  refine ⟨unsettled_le settled, fun _ => ?_⟩
  exact Prod.Lex.toLex_lt_toLex.mpr (.inl loops)

theorem rank_lt_of_lightens (lightens : Lightens 1 graph other) (consistent : graph.Consistent) :
    other.rank < graph.rank := by
  apply Prod.Lex.toLex_lt_toLex'.mpr
  refine ⟨unsettled_le lightens.settled, fun _ => ?_⟩
  apply Prod.Lex.toLex_lt_toLex'.mpr
  refine ⟨lightens.loops, fun _ => ?_⟩
  exact Prod.Lex.toLex_lt_toLex.mpr (.inl (lightens.leastLoad_le consistent))

theorem rank_lt_of_tests (lightens : Lightens 0 graph other) (consistent : graph.Consistent)
    (tests : other.tests < graph.tests) : other.rank < graph.rank := by
  apply Prod.Lex.toLex_lt_toLex'.mpr
  refine ⟨unsettled_le lightens.settled, fun _ => ?_⟩
  apply Prod.Lex.toLex_lt_toLex'.mpr
  refine ⟨lightens.loops, fun _ => ?_⟩
  exact Prod.Lex.toLex_lt_toLex'.mpr ⟨lightens.leastLoad_le consistent, fun _ => tests⟩

theorem rank_le_of_tests (lightens : Lightens 0 graph other) (consistent : graph.Consistent)
    (tests : other.tests ≤ graph.tests) : other.rank ≤ graph.rank := by
  apply Prod.Lex.toLex_le_toLex'.mpr
  refine ⟨unsettled_le lightens.settled, fun _ => ?_⟩
  apply Prod.Lex.toLex_le_toLex'.mpr
  refine ⟨lightens.loops, fun _ => ?_⟩
  exact Prod.Lex.toLex_le_toLex'.mpr ⟨lightens.leastLoad_le consistent, fun _ => tests⟩

end Graph

end StackFlow
