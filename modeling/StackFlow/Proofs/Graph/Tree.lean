import Mathlib
import StackFlow.Proofs.Graph.Consistency

/-!
# Cycles and trees

A vertex is on a cycle if a path of at least one edge leads from it to itself. A tree
has no cycle, and no vertex of it is entered by two edges. In a consistent tree all
edges to a vertex therefore start at the same parent.
-/

namespace StackFlow

namespace Digraph

variable {α : Type} {graph : Digraph α} {first second last : α}

/-- A path of at least one edge leads from one node to another. -/
def Moves (graph : Digraph α) (first last : α) : Prop :=
  ∃ second ∈ graph.next first, graph.Reaches second last

theorem Moves.trans (moves : graph.Moves first second) (path : graph.Reaches second last) :
    graph.Moves first last := by
  rcases moves with ⟨next, edge, rest⟩
  exact ⟨next, edge, rest.trans path⟩

theorem Moves.reaches (moves : graph.Moves first last) : graph.Reaches first last := by
  rcases moves with ⟨next, edge, rest⟩
  exact .step edge rest

theorem Reaches.moves (path : graph.Reaches first second) (moves : graph.Moves second last) :
    graph.Moves first last := by
  cases path with
  | refl _ => exact moves
  | step edge rest =>
      rcases moves with ⟨next, onward, ending⟩
      exact ⟨_, edge, (rest.tail onward).trans ending⟩

theorem Moves.exists_last (moves : graph.Moves first last) :
    ∃ before, graph.Reaches first before ∧ last ∈ graph.next before := by
  rcases moves with ⟨second, edge, path⟩
  induction path generalizing first with
  | refl _ => exact ⟨first, .refl first, edge⟩
  | step onward _ ih =>
      rcases ih onward with ⟨before, path, ends⟩
      exact ⟨before, .step edge path, ends⟩

end Digraph

namespace Graph

variable {graph : Graph} {id source other target : VertexId}

theorem onCycle_iff : graph.onCycle id = true ↔ graph.edges.Moves id id := by
  simp only [onCycle, decide_eq_true_eq, Digraph.mem_search_iff]
  rfl

/-- No path leads back, and no vertex has two edges that enter it. -/
structure IsTree (graph : Graph) : Prop where
  acyclic : ∀ id ∈ graph.ids, graph.onCycle id = false
  single : ∀ id ∈ graph.ids, (graph.parents id).length ≤ 1

namespace IsTree

variable (tree : graph.IsTree)
include tree

theorem not_moves : ¬graph.edges.Moves id id := by
  intro moves
  rcases moves with ⟨next, edge, path⟩
  have cyclic : graph.onCycle id = true := onCycle_iff.mpr ⟨next, edge, path⟩
  rw [tree.acyclic id (mem_ids.mpr (live_of_mem_children edge))] at cyclic
  cases cyclic

theorem parent_unique (consistent : graph.Consistent) (edge : target ∈ graph.children source)
    (otherEdge : target ∈ graph.children other) : source = other := by
  have parent := consistent.mem_children_iff.mp edge
  have otherParent := consistent.mem_children_iff.mp otherEdge
  have single := tree.single target (mem_ids.mpr (live_of_mem_parents parent))
  cases parents : graph.parents target with
  | nil => simp [parents] at parent
  | cons only rest =>
      have alone : graph.parents target = [only] := by simpa [parents] using single
      rw [alone, List.mem_singleton] at parent otherParent
      exact parent.trans otherParent.symm

end IsTree

end Graph

end StackFlow
