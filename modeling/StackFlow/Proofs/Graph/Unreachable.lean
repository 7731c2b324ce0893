import Mathlib
import StackFlow.Proofs.Behaviour.Simulation

/-!
# Unreachable vertices

No run comes to a vertex that the root does not reach, so removing such vertices
changes nothing that can be seen. What is left of a consistent graph is consistent
and rooted.
-/

namespace StackFlow

namespace Graph

variable {graph : Graph} {root : VertexId}

theorem mem_unreachable_iff (start : graph.root = some root) {id : VertexId} :
    id ∈ graph.unreachable ↔ graph.contains id = true ∧ ¬graph.edges.Reaches root id := by
  simp [unreachable, mem_ids, mem_walk_iff start]

theorem vertex?_dropUnreachable (graph : Graph) (id : VertexId) :
    graph.dropUnreachable.vertex? id = if id ∈ graph.unreachable then none
      else (graph.vertex? id).map fun vertex =>
        { vertex with
          parents := vertex.parents.filter fun parent =>
            !(parent ∈ graph.unreachable && id ∈ graph.children parent) } := by
  rw [dropUnreachable, vertex?_mapVertices]
  by_cases lost : id ∈ graph.unreachable
  · simp only [if_pos lost]
    cases graph.vertex? id <;> rfl
  · simp only [if_neg lost, Option.map_eq_bind]
    rfl

theorem view_of_reached (start : graph.root = some root) {id : VertexId} {vertex : Vertex}
    (reached : graph.edges.Reaches root id) (found : graph.vertex? id = some vertex) :
    ∃ after, graph.dropUnreachable.vertex? id = some after ∧ after.kind = vertex.kind ∧
      after.children = vertex.children := by
  have kept : id ∉ graph.unreachable := fun lost => ((mem_unreachable_iff start).mp lost).2 reached
  rw [vertex?_dropUnreachable, if_neg kept, found]
  exact ⟨_, rfl, rfl, rfl⟩

theorem exists_before (start : graph.root = some root) {id : VertexId} {after : Vertex}
    (found : graph.dropUnreachable.vertex? id = some after) :
    graph.edges.Reaches root id ∧ ∃ vertex, graph.vertex? id = some vertex ∧
      after.kind = vertex.kind ∧ after.children = vertex.children := by
  rw [vertex?_dropUnreachable] at found
  by_cases lost : id ∈ graph.unreachable
  · simp [lost] at found
  · rw [if_neg lost, Option.map_eq_some_iff] at found
    rcases found with ⟨vertex, foundBefore, rfl⟩
    refine ⟨?_, vertex, foundBefore, rfl, rfl⟩
    by_contra unreached
    exact lost ((mem_unreachable_iff start).mpr ⟨contains_iff.mpr ⟨vertex, foundBefore⟩, unreached⟩)

theorem consistent_dropUnreachable (consistent : graph.Consistent)
    (start : graph.root = some root) : graph.dropUnreachable.Consistent := by
  have children (source : VertexId) :
      graph.dropUnreachable.children source =
        if source ∈ graph.unreachable then [] else graph.children source := by
    by_cases lost : source ∈ graph.unreachable
    · simp [Graph.children, vertex?_dropUnreachable, lost]
    · cases found : graph.vertex? source <;>
        simp [Graph.children, vertex?_dropUnreachable, lost, found]
  have parents (target : VertexId) :
      graph.dropUnreachable.parents target =
        if target ∈ graph.unreachable then []
        else (graph.parents target).filter fun parent =>
          !(parent ∈ graph.unreachable && target ∈ graph.children parent) := by
    by_cases lost : target ∈ graph.unreachable
    · simp [Graph.parents, vertex?_dropUnreachable, lost]
    · cases found : graph.vertex? target <;>
        simp [Graph.parents, vertex?_dropUnreachable, lost, found]
  refine ⟨?_, ?_⟩
  · intro source target
    rw [children, parents]
    by_cases edge : target ∈ graph.children source
    · have sourceLive := live_of_mem_children edge
      by_cases lost : source ∈ graph.unreachable
      · rw [if_pos lost, List.count_nil, eq_comm, List.count_eq_zero]
        split_ifs
        · exact List.not_mem_nil
        · simp [lost, edge]
      · have reached : graph.edges.Reaches root source := by
          by_contra unreached
          exact lost ((mem_unreachable_iff start).mpr ⟨sourceLive, unreached⟩)
        have kept : target ∉ graph.unreachable := fun lost =>
          ((mem_unreachable_iff start).mp lost).2 (reached.tail edge)
        rw [if_neg lost, if_neg kept, List.count_filter (by simp [lost]), consistent.mirrored]
    · have unlinked : source ∉ graph.parents target := mt consistent.mem_children_iff.mpr edge
      split_ifs <;> simp [List.count_eq_zero_of_not_mem, edge, unlinked]
  · intro id after found
    rcases exists_before start found with ⟨-, vertex, foundBefore, kind, leads⟩
    rw [kind, leads]
    exact consistent.fits foundBefore

theorem rooted_dropUnreachable (start : graph.root = some root)
    (live : graph.contains root = true) : graph.dropUnreachable.Rooted := by
  rcases contains_iff.mp live with ⟨vertex, found⟩
  rcases view_of_reached start (.refl root) found with ⟨after, afterFound, -, -⟩
  have stays {source target : VertexId} (path : graph.edges.Reaches source target)
      (reached : graph.edges.Reaches root source) :
      graph.dropUnreachable.edges.Reaches source target := by
    induction path with
    | refl _ => exact .refl _
    | step edge _ ih =>
        refine .step ?_ (ih (reached.tail edge))
        rcases contains_iff.mp (live_of_mem_children edge) with ⟨before, beforeFound⟩
        rcases view_of_reached start reached beforeFound with ⟨_, viewed, -, leads⟩
        change _ ∈ graph.dropUnreachable.children _
        rw [children_eq viewed, leads, ← children_eq beforeFound]
        exact edge
  refine ⟨root, start, contains_iff.mpr ⟨after, afterFound⟩, ?_⟩
  intro id idLive
  rcases contains_iff.mp idLive with ⟨_, viewed⟩
  exact stays (exists_before start viewed).1 (.refl root)

/-- Both programs are at the same vertex, which the root reaches, in the same state. -/
def reaching (graph : Graph) (root : VertexId) : Pairing := fun id state twin twinState =>
  twin = id ∧ twinState = state ∧ graph.contains id = true ∧ graph.edges.Reaches root id

theorem behavesLike_dropUnreachable (consistent : graph.Consistent) (start : graph.root = some root)
    (live : graph.contains root = true) : graph.BehavesLike graph.dropUnreachable := by
  have aligned {id state twin twinState} (pair : graph.reaching root id state twin twinState) :
      graph.Aligned graph.dropUnreachable (graph.reaching root) id state twin twinState := by
    rcases pair with ⟨rfl, rfl, idLive, reached⟩
    rcases contains_iff.mp idLive with ⟨vertex, found⟩
    rcases view_of_reached start reached found with ⟨after, afterFound, kind, leads⟩
    refine aligned_of_vertices id found afterFound (consistent.fits found) (by simp [leads])
      (by rw [kind]) (fun drawn => by rw [kind]) ?_
    intro next member
    rw [← children_eq found] at member
    rw [kind]
    exact ⟨rfl, rfl, consistent.child_live member, reached.tail member⟩
  exact behavesLike_of_aligned aligned start start fun input => ⟨rfl, rfl, live, .refl root⟩

theorem declared_dropUnreachable (declared : graph.Declared) (start : graph.root = some root) :
    graph.dropUnreachable.Declared := by
  rw [declared_iff] at declared ⊢
  intro id after found var occurs
  rcases exists_before start found with ⟨-, vertex, foundBefore, kind, -⟩
  exact declared id vertex foundBefore var (kind ▸ occurs)

/-- A consistent graph becomes well-formed once the unreachable vertices are gone. -/
theorem dropUnreachable_spec (consistent : graph.Consistent) (declared : graph.Declared)
    (start : graph.root = some root) (live : graph.contains root = true) :
    graph.dropUnreachable.WellFormed ∧ graph.BehavesLike graph.dropUnreachable :=
  ⟨⟨consistent_dropUnreachable consistent start, rooted_dropUnreachable start live,
    declared_dropUnreachable declared start⟩, behavesLike_dropUnreachable consistent start live⟩

/-- A root that is gone reaches nothing. -/
theorem contains_dropUnreachable_of_dead (start : graph.root = some root)
    (dead : graph.contains root = false) (id : VertexId) :
    graph.dropUnreachable.contains id = false := by
  by_contra live
  rcases contains_iff.mp (by simpa using live) with ⟨after, found⟩
  rcases exists_before start found with ⟨reached, vertex, foundBefore, -⟩
  cases reached with
  | refl _ => simp [contains, foundBefore] at dead
  | step edge _ =>
      have sourceLive : graph.contains root = true := live_of_mem_children edge
      simp [dead] at sourceLive

theorem validate_of_dead (start : graph.root = some root) (dead : graph.contains root = false) :
    graph.validate = .error (.unknownVertex root) := by
  simp [validate, defect?, rootDefect?, start, dead]

end Graph

end StackFlow
