import Mathlib
import StackFlow.Proofs.Graph.Unreachable

/-!
# Pruning

`prune` takes the vertices that the root does not reach away one by one, while
`dropUnreachable` takes them away at once. The two agree on every graph, since
removing a vertex leaves the successors of all others as they are: what a later
step strikes from the lists of predecessors does not depend on the earlier ones.

On a graph whose edges are recorded at both ends, the entries that are struck are
therefore those of the removed vertices and no others, and what is left is valid.
-/

namespace StackFlow

namespace Graph

variable {graph : Graph} {root : VertexId}

theorem mapVertices_some (graph : Graph) :
    (graph.mapVertices fun _ vertex => some vertex) = graph := by
  have slots : graph.slots.mapIdx (fun _ slot => slot) = graph.slots := by
    apply Array.ext <;> simp
  simp [mapVertices, slots]

theorem mapVertices_mapVertices (graph : Graph) (first second : VertexId → Vertex → Option Vertex) :
    (graph.mapVertices first).mapVertices second =
      graph.mapVertices fun id vertex => (first id vertex).bind (second id) := by
  simp [mapVertices, Array.mapIdx_mapIdx, Function.comp_def, Option.bind_assoc]

/-- Removing a vertex leaves the successors of all others as they are. -/
theorem children_detach (graph : Graph) (id source : VertexId) :
    (graph.detach id).children source = if source = id then [] else graph.children source := by
  by_cases same : source = id
  · simp [children, detach, same]
  · cases found : graph.vertex? source <;> simp [children, detach, found, same]

/-- Removing vertices one after the other is removing them all at once. The order is of no
consequence, and neither is whether the root reaches them. -/
theorem foldl_detach (graph : Graph) (lost : List VertexId) :
    lost.foldl detach graph = graph.mapVertices fun id vertex =>
      if id ∈ lost then none
      else some { vertex with
        parents :=
          vertex.parents.filter fun parent => !(parent ∈ lost && id ∈ graph.children parent) } := by
  induction lost generalizing graph with
  | nil => simp [mapVertices_some]
  | cons first rest ih =>
      rw [List.foldl_cons, ih]
      simp only [children_detach]
      rw [detach, mapVertices_mapVertices]
      congr 1
      funext id vertex
      -- The first step strikes the entries for `first`, the later ones those for `rest`.
      have struck :
          (if id ∈ graph.children first then vertex.parents.filter (· ≠ first)
            else vertex.parents).filter (fun parent =>
              !(parent ∈ rest && id ∈ if parent = first then [] else graph.children parent)) =
          vertex.parents.filter fun parent =>
            !(parent ∈ first :: rest && id ∈ graph.children parent) := by
        split_ifs with edge
        · rw [List.filter_filter]
          apply List.filter_congr
          intro parent _
          by_cases same : parent = first <;> simp [same, edge]
        · apply List.filter_congr
          intro parent _
          by_cases same : parent = first <;> simp [same, edge]
      by_cases same : id = first
      · simp [same]
      · have later : id ∈ first :: rest ↔ id ∈ rest := by simp [same]
        rw [if_neg same, Option.bind_some, struck]
        simp only [later]

theorem prune_eq (graph : Graph) :
    graph.prune = (graph.dropUnreachable, !graph.unreachable.isEmpty) := by
  rw [prune, foldl_detach]
  rfl

theorem contains_dropUnreachable_iff (consistent : graph.Consistent)
    (start : graph.root = some root) (live : graph.contains root = true) (id : VertexId) :
    graph.dropUnreachable.contains id = true ↔ graph.edges.Reaches root id := by
  constructor
  · intro kept
    rcases contains_iff.mp kept with ⟨after, found⟩
    exact (exists_before start found).1
  · intro reached
    rcases contains_iff.mp (consistent.reaches_live reached live) with ⟨vertex, found⟩
    rcases view_of_reached start reached found with ⟨after, afterFound, -, -⟩
    exact contains_iff.mpr ⟨after, afterFound⟩

/-- A vertex that is left loses the entries for the vertices that are gone. -/
theorem eq_of_vertex?_dropUnreachable (consistent : graph.Consistent)
    (start : graph.root = some root) (live : graph.contains root = true) {id : VertexId}
    {after : Vertex} (found : graph.dropUnreachable.vertex? id = some after) :
    ∃ before, graph.vertex? id = some before ∧
      after = { before with parents := before.parents.filter graph.dropUnreachable.contains } := by
  have kept : id ∉ graph.unreachable := by
    intro lost
    simp [vertex?_dropUnreachable, lost] at found
  rw [vertex?_dropUnreachable, if_neg kept, Option.map_eq_some_iff] at found
  rcases found with ⟨before, foundBefore, rfl⟩
  refine ⟨before, foundBefore, ?_⟩
  congr 1
  apply List.filter_congr
  intro parent member
  have entry : parent ∈ graph.parents id := parents_eq foundBefore ▸ member
  have edge : id ∈ graph.children parent := consistent.mem_children_iff.mpr entry
  have gone : parent ∈ graph.unreachable ↔ ¬graph.dropUnreachable.contains parent = true := by
    rw [mem_unreachable_iff start, contains_dropUnreachable_iff consistent start live]
    exact and_iff_right (consistent.parent_live entry)
  simp [edge, gone]

theorem prune_of_rooted (rooted : graph.Rooted) : graph.prune = (graph, false) := by
  simp [prune, unreachable_eq_nil rooted]

/-- Pruning makes a graph valid that is so but for vertices the root does not reach. It removes
these and strikes their entries from the lists of predecessors, leaves all else as it is, tells
whether there were any, and has nothing to do a second time. -/
theorem prune_repairs (consistent : graph.Consistent) (start : graph.root = some root)
    (live : graph.contains root = true) :
    ∃ other removed, graph.prune = (other, removed) ∧ other.validate = .ok () ∧
      other = { graph with slots := other.slots } ∧
      (∀ id, other.contains id = true ↔ graph.edges.Reaches root id) ∧
      (∀ id after, other.vertex? id = some after → ∃ before, graph.vertex? id = some before ∧
        after = { before with parents := before.parents.filter other.contains }) ∧
      (removed = true ↔ ∃ id, graph.contains id = true ∧ other.contains id = false) ∧
      other.prune = (other, false) := by
  have rooted := rooted_dropUnreachable start live
  have left := contains_dropUnreachable_iff consistent start live
  have valid := valid_iff.mpr ⟨consistent_dropUnreachable consistent start, rooted⟩
  refine ⟨graph.dropUnreachable, _, graph.prune_eq, validate_eq_ok_iff.mpr valid, rfl, left,
    fun _ _ => eq_of_vertex?_dropUnreachable consistent start live, ?_, prune_of_rooted rooted⟩
  simp only [Bool.not_eq_true', List.isEmpty_eq_false_iff_exists_mem,
    mem_unreachable_iff start, ← left, Bool.not_eq_true]

/-- Two vertices lead to the second vertex of the program, by three edges. One of them is entered
only from the other, which is entered only from itself. -/
def strayBranches : Graph where
  slots := #[
    some { kind := .single .nop, children := [⟨1⟩] },
    some { kind := .single .pop, parents := [⟨2⟩, ⟨0⟩, ⟨3⟩, ⟨2⟩] },
    some { kind := .decision, children := [⟨1⟩, ⟨1⟩], parents := [⟨3⟩] },
    some { kind := .random, children := [⟨2⟩, ⟨3⟩, ⟨1⟩, ⟨3⟩], parents := [⟨3⟩, ⟨3⟩] }]
  root := some ⟨0⟩
  grid := .blank 0 0
  vars := #[]

theorem prune_repairs_strayBranches :
    strayBranches.Consistent ∧ ∃ other,
      strayBranches.prune = (other, true) ∧ other.validate = .ok () ∧
      other.contains ⟨2⟩ = false ∧ other.contains ⟨3⟩ = false ∧ other.parents ⟨1⟩ = [⟨0⟩] ∧
      (∀ id, other.contains id = true ↔ strayBranches.edges.Reaches ⟨0⟩ id) ∧
      other.prune = (other, false) := by
  have sound : ∀ entry ∈ strayBranches.vertices,
      strayBranches.vertexDefect? entry.1 entry.2 = none := by
    decide +kernel
  have consistent : strayBranches.Consistent :=
    consistent_of_vertexDefect? fun {id vertex} found => sound (id, vertex) (mem_vertices.mpr found)
  have computed : strayBranches.prune.2 = true ∧ strayBranches.prune.1.contains ⟨2⟩ = false ∧
      strayBranches.prune.1.contains ⟨3⟩ = false ∧ strayBranches.prune.1.parents ⟨1⟩ = [⟨0⟩] := by
    decide +kernel
  have start : strayBranches.root = some ⟨0⟩ := rfl
  rcases prune_repairs consistent start (by decide) with
    ⟨other, removed, pruned, valid, -, reached, -, -, again⟩
  rw [pruned] at computed
  rcases computed with ⟨rfl, decision, random, entries⟩
  exact ⟨consistent, other, pruned, valid, decision, random, entries, reached, again⟩

end Graph

end StackFlow
