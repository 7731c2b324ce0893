import Mathlib
import StackFlow.Proofs.Branches
import StackFlow.Proofs.Termination.Rank

/-!
# Folded branches lower the rank

Folding branches only takes vertices and edges away. A branch that becomes straight
weighs less, and if it lies on no cycle, the cycles stay as they are and all shares
are still enough. If it lies on a cycle, a way to leave a cycle is gone. A negated
test that is turned round has a negation less, and all else is as before.
-/

namespace StackFlow

namespace Kind

variable {kind other : Kind}

/-- A branch weighs more than what it becomes when it goes straight on. -/
theorem weight_lt_of_collapsed? (collapsed : kind.collapsed? = some other) :
    other.weight < kind.weight := by
  cases kind <;> cases collapsed <;> exact Nat.lt_succ_self 1

theorem two_le_length_of_collapsed? (collapsed : kind.collapsed? = some other)
    {children : List VertexId} (fits : kind.Fits children) : 2 ≤ children.length := by
  cases kind <;> cases collapsed <;> simp_all [Fits, arity?, exit, Exit.arity?]

theorem FoldsTo.weight_le (folds : kind.FoldsTo other) : other.weight ≤ kind.weight := by
  rcases folds with collapsed | negation
  · exact (weight_lt_of_collapsed? collapsed).le
  · unfold unnegated? at negation
    split at negation <;> cases negation <;> exact le_rfl

theorem FoldsTo.memoryAccesses_subset (folds : kind.FoldsTo other) :
    other.memoryAccesses ⊆ kind.memoryAccesses := by
  rcases folds with collapsed | negation
  · cases kind <;> cases collapsed <;>
      simp [memoryAccesses, ops, test?, exit, Op.memoryAccesses, Op.ownMemoryAccess, Op.expressions]
  · rcases unnegated?_spec negation with ⟨operand, ops, exit, otherExit⟩
    simp [memoryAccesses, ops, test?, exit, otherExit, Expr.memoryReads]

theorem negations_of_unnegated? (negation : kind.unnegated? = some other) :
    other.negations < kind.negations := by
  rcases unnegated?_spec negation with ⟨operand, -, exit, otherExit⟩
  simp [negations, test?, exit, otherExit, Expr.negations]

end Kind

namespace Graph

variable {graph other : Graph} {id source target : VertexId} {share : VertexId → ℕ}

/-- The second graph holds no vertices and no edges but those of the first. Its vertices weigh no
more and access no other cells. -/
structure Trims (graph other : Graph) : Prop where
  consistent : other.Consistent
  grid : other.grid = graph.grid
  view : ∀ {id after}, other.vertex? id = some after → ∃ before, graph.vertex? id = some before ∧
    after.children.Subperm before.children ∧ after.kind.weight ≤ before.kind.weight ∧
      after.kind.memoryAccesses ⊆ before.kind.memoryAccesses

namespace Trims

variable (trims : graph.Trims other)

include trims

theorem live (live : other.contains id = true) : graph.contains id = true := by
  rcases contains_iff.mp live with ⟨after, found⟩
  rcases trims.view found with ⟨before, foundBefore, -⟩
  exact contains_iff.mpr ⟨before, foundBefore⟩

theorem idSet_subset : other.idSet ⊆ graph.idSet := by
  intro id member
  rw [mem_idSet] at member ⊢
  exact trims.live member

theorem children_subperm (source : VertexId) :
    (other.children source).Subperm (graph.children source) := by
  cases found : other.vertex? source with
  | none => simp [children, found]
  | some after =>
      rcases trims.view found with ⟨before, foundBefore, leads, -⟩
      rwa [children_eq found, children_eq foundBefore]

theorem weight_le (id : VertexId) : other.weight id ≤ graph.weight id := by
  cases found : other.vertex? id with
  | none => simp [weight, found]
  | some after =>
      rcases trims.view found with ⟨before, foundBefore, -, weight, -⟩
      rwa [weight_eq found, weight_eq foundBefore]

theorem onCycle (cyclic : other.onCycle id = true) : graph.onCycle id = true := by
  have edges {source next : VertexId} (edge : next ∈ other.children source) :
      graph.edges.Moves source next :=
    ⟨next, (trims.children_subperm source).subset edge, .refl next⟩
  refine onCycle_rename (fun id => id) edges ?_ cyclic
  intro source next edge
  exact .step ((trims.children_subperm source).subset edge) (.refl next)

theorem surplus_le (id : VertexId) : other.surplus id ≤ graph.surplus id :=
  Graph.surplus_le trims.onCycle (trims.children_subperm id).length_le

theorem loops_le : other.loops ≤ graph.loops :=
  calc other.loops
      ≤ ∑ id ∈ other.idSet, graph.surplus id := Finset.sum_le_sum fun id _ => trims.surplus_le id
    _ ≤ graph.loops := Finset.sum_le_sum_of_subset trims.idSet_subset

theorem settled (settled : graph.Settled) : other.Settled := by
  intro id after found access member
  rcases trims.view found with ⟨before, foundBefore, -, -, accesses⟩
  rw [trims.grid]
  exact settled id before foundBefore access (accesses member)

theorem inflow_le (share : VertexId → ℕ) (id : VertexId) :
    other.inflow share id ≤ graph.inflow share id :=
  calc other.inflow share id
      ≤ ∑ source ∈ other.idSet, (graph.children source).count id * share source := by
        apply Finset.sum_le_sum
        intro source _
        exact Nat.mul_le_mul_right _ ((trims.children_subperm source).count_le id)
    _ ≤ graph.inflow share id := Finset.sum_le_sum_of_subset trims.idSet_subset

theorem load_le (share : VertexId → ℕ) : other.load share ≤ graph.load share :=
  calc other.load share
      ≤ ∑ id ∈ other.idSet, share id * graph.weight id := by
        apply Finset.sum_le_sum
        intro id _
        exact Nat.mul_le_mul_left _ (trims.weight_le id)
    _ ≤ graph.load share := Finset.sum_le_sum_of_subset trims.idSet_subset

theorem load_lt (positive : 0 < share id) (live : other.contains id = true)
    (lighter : other.weight id < graph.weight id) : other.load share < graph.load share :=
  calc other.load share
      < ∑ id ∈ other.idSet, share id * graph.weight id := by
        apply Finset.sum_lt_sum
        · intro id _
          exact Nat.mul_le_mul_left _ (trims.weight_le id)
        · exact ⟨id, mem_idSet.mpr live, Nat.mul_lt_mul_of_pos_left lighter positive⟩
    _ ≤ graph.load share := Finset.sum_le_sum_of_subset trims.idSet_subset

/-- If the vertices on cycles keep their edges, all shares are still enough. -/
theorem weighting
    (kept : ∀ {source}, graph.onCycle source = true → other.contains source = true →
      graph.children source ⊆ other.children source)
    (weighting : graph.Weighting share) : other.Weighting share := by
  refine ⟨weighting.pos, fun {id} acyclic => ?_⟩
  cases live : other.contains id with
  | true =>
      refine (trims.inflow_le share id).trans (weighting.flow (acyclic_of_cyclic_kept ?_ acyclic))
      exact onCycle_of_kept trims.consistent (fun onCycle live edge => kept onCycle live edge) live
  | false =>
      have orphan : other.parents id = [] := by
        rw [List.eq_nil_iff_forall_not_mem]
        intro source edge
        simp [live_of_mem_parents edge] at live
      simp [inflow_eq trims.consistent, orphan]

/-- A branch that goes straight on lowers the rank, on a cycle or not. -/
theorem rank_lt_of_straightened {before after : Vertex} (consistent : graph.Consistent)
    (found : graph.vertex? id = some before) (afterFound : other.vertex? id = some after)
    (collapsed : before.kind.collapsed? = some after.kind) (straight : after.children.length = 1)
    (elsewhere : ∀ {source}, source ≠ id → other.contains source = true →
      graph.children source ⊆ other.children source) : other.rank < graph.rank := by
  have live : other.contains id = true := contains_iff.mpr ⟨after, afterFound⟩
  cases cyclic : graph.onCycle id with
  | true =>
      have branches := Kind.two_le_length_of_collapsed? collapsed (consistent.fits found)
      have opened : other.surplus id < graph.surplus id := by
        simp only [surplus, children_eq found, children_eq afterFound, straight, cyclic, if_true]
        split_ifs <;> omega
      apply rank_lt_of_loops trims.settled
      calc other.loops
          < ∑ id ∈ other.idSet, graph.surplus id :=
            Finset.sum_lt_sum (fun id _ => trims.surplus_le id) ⟨id, mem_idSet.mpr live, opened⟩
        _ ≤ graph.loops := Finset.sum_le_sum_of_subset trims.idSet_subset
  | false =>
      have lighter : other.weight id < graph.weight id := by
        rw [weight_eq found, weight_eq afterFound]
        exact Kind.weight_lt_of_collapsed? collapsed
      refine rank_lt_of_lightens ⟨trims.settled, trims.loops_le, ?_⟩ consistent
      intro share weighting
      refine ⟨share, trims.weighting ?_ weighting, trims.load_lt (weighting.pos id) live lighter⟩
      intro source onCycle sourceLive
      apply elsewhere _ sourceLive
      rintro rfl
      simp [cyclic] at onCycle

end Trims

namespace FoldedAt

theorem grid (folded : graph.FoldedAt id other) : other.grid = graph.grid := by
  cases folded with
  | collapsed collapse goes => exact collapse.grid
  | unnegated unnegated => exact unnegated.grid
  | merged twins collapse => exact collapse.grid

theorem trims (folded : graph.FoldedAt id other) (consistent : graph.Consistent) :
    graph.Trims other := by
  refine ⟨(folded.folds consistent).consistent, folded.grid, ?_⟩
  intro source after found
  rcases folded.view found with ⟨before, foundBefore, leads, atBranch, elsewhere⟩
  refine ⟨before, foundBefore, leads, ?_⟩
  by_cases same : source = id
  · exact ⟨(atBranch same).weight_le, (atBranch same).memoryAccesses_subset⟩
  · rw [elsewhere same]
    exact ⟨le_rfl, List.Subset.refl _⟩

end FoldedAt

namespace Unnegated

variable {vertex : Vertex} {kind : Kind} {onTrue onFalse : VertexId}
  (unnegated : graph.Unnegated other id vertex kind onTrue onFalse)

include unnegated

theorem children_subset (source : VertexId) : graph.children source ⊆ other.children source := by
  by_cases same : source = id
  · rw [same, children_eq unnegated.found, children_eq unnegated.view_folded, unnegated.children]
    simp
  · simp [Graph.children, unnegated.view_other same]

theorem tests_lt : other.tests < graph.tests := by
  have same : other.idSet = graph.idSet := by
    ext source
    simp [contains, unnegated.view]
  have fewer : other.negations id < graph.negations id := by
    simpa [Graph.negations, unnegated.view_folded, unnegated.found]
      using Kind.negations_of_unnegated? unnegated.negation
  rw [tests, tests, same]
  apply Finset.sum_lt_sum
  · intro source _
    by_cases isId : source = id
    · exact isId ▸ fewer.le
    · rw [Graph.negations, unnegated.view_other isId, Graph.negations]
  · exact ⟨id, mem_idSet.mpr (contains_iff.mpr ⟨vertex, unnegated.found⟩), fewer⟩

end Unnegated

/-- A single fold lowers the rank. -/
theorem FoldedAt.rank_lt (folded : graph.FoldedAt id other) (consistent : graph.Consistent) :
    other.rank < graph.rank := by
  have trims := folded.trims consistent
  cases folded with
  | collapsed collapse goes =>
      have found := collapse.view id
      rw [collapse.found, Option.map_some, if_pos rfl, if_pos rfl] at found
      apply trims.rank_lt_of_straightened consistent collapse.found found collapse.kind rfl
      intro source apart _
      rw [collapse.children, if_neg apart]
      exact List.Subset.refl _
  | unnegated unnegated =>
      refine rank_lt_of_tests ⟨trims.settled, trims.loops_le, fun {share} weighting => ?_⟩
        consistent unnegated.tests_lt
      exact ⟨share, trims.weighting (fun _ _ => unnegated.children_subset _) weighting,
        trims.load_le share⟩
  | merged twins collapse =>
      rcases collapse.view_mergeTwins twins.falseApart.symm collapse.found with
        ⟨after, found, kind, leads⟩
      rw [if_pos rfl] at kind leads
      apply trims.rank_lt_of_straightened consistent collapse.found found (kind ▸ collapse.kind)
        (by rw [leads]; rfl)
      intro source apart live
      rcases contains_iff.mp live with ⟨viewed, viewedFound⟩
      rcases exists_before_mergeTwins viewedFound with ⟨-, between, betweenFound, -, same⟩
      rw [children_eq viewedFound, same, ← children_eq betweenFound, collapse.children,
        if_neg apart]
      exact List.Subset.refl _

theorem rank_lt_of_folding (run : Relation.TransGen Folding graph other) :
    other.rank < graph.rank := by
  induction run with
  | single step =>
      rcases step with ⟨consistent, id, folded⟩
      exact folded.rank_lt consistent
  | tail _ step ih =>
      rcases step with ⟨consistent, id, folded⟩
      exact (folded.rank_lt consistent).trans ih

/-- Dropping what cannot be reached leaves all cycles among the rest. -/
theorem rank_dropUnreachable_le (consistent : graph.Consistent) {root : VertexId}
    (start : graph.root = some root) : graph.dropUnreachable.rank ≤ graph.rank := by
  have view {id : VertexId} {after : Vertex}
      (found : graph.dropUnreachable.vertex? id = some after) :
      ∃ before, graph.vertex? id = some before ∧ after.kind = before.kind ∧
        after.children = before.children :=
    (exists_before start found).2
  have trims : graph.Trims graph.dropUnreachable := by
    refine ⟨consistent_dropUnreachable consistent start, rfl, fun found => ?_⟩
    rcases view found with ⟨before, foundBefore, kind, leads⟩
    rw [kind, leads]
    exact ⟨before, foundBefore, .refl _, le_rfl, List.Subset.refl _⟩
  refine rank_le_of_tests ⟨trims.settled, trims.loops_le, fun {share} weighting => ?_⟩ consistent ?_
  · refine ⟨share, trims.weighting ?_ weighting, trims.load_le share⟩
    intro source _ live
    rcases contains_iff.mp live with ⟨after, found⟩
    rcases view found with ⟨before, foundBefore, -, leads⟩
    rw [children_eq found, leads, children_eq foundBefore]
    exact List.Subset.refl _
  · calc graph.dropUnreachable.tests
        = ∑ id ∈ graph.dropUnreachable.idSet, graph.negations id := by
          apply Finset.sum_congr rfl
          intro id member
          rcases contains_iff.mp (mem_idSet.mp member) with ⟨after, found⟩
          rcases view found with ⟨before, foundBefore, kind, -⟩
          simp [Graph.negations, found, foundBefore, kind]
      _ ≤ graph.tests := Finset.sum_le_sum_of_subset trims.idSet_subset

/-- The pass over the branches leaves the graph alone, or it lowers the rank. -/
theorem foldBranches_rank (valid : graph.Valid) {count : ℕ}
    (result : graph.foldBranches = .ok (other, count)) :
    (count = 0 ∧ other = graph) ∨ (count ≠ 0 ∧ other.rank < graph.rank) := by
  rcases valid_iff.mp valid with ⟨consistent, root, start, -, -⟩
  rcases foldBranches_run consistent result with unchanged | ⟨positive, folded, run, rfl⟩
  · exact .inl unchanged
  · have folds := folds_of_folding run
    refine .inr ⟨positive, ?_⟩
    exact (rank_dropUnreachable_le folds.consistent (folds.root.trans start)).trans_lt
      (rank_lt_of_folding run)

end Graph

end StackFlow
