import Mathlib
import StackFlow.Proofs.Behaviour.Simulation

/-!
# Paths at the end of a graph

Copying the end of a chain and replacing a chain both add a path of new vertices
behind all others. What holds of such a path is said here once: which neighbours
its vertices have, when both ends of all edges agree, that its head reaches all
of it, and that it is a stretch.
-/

namespace StackFlow

theorem getElem?_linked (start : Nat) (incoming outgoing : List VertexId) (nodes : List Node)
    (offset : Nat) :
    (linked start incoming outgoing nodes)[offset]? = nodes[offset]?.map fun node =>
      { node with
        children := if offset + 1 = nodes.length then outgoing else [⟨start + offset + 1⟩]
        parents := if offset = 0 then incoming else [⟨start + offset - 1⟩] } := by
  fun_induction linked start incoming outgoing nodes generalizing offset with
  | case1 => simp
  | case2 => cases offset <;> simp
  | case3 start incoming node next nodes ih =>
      cases offset with
      | zero => simp
      | succ offset =>
          rw [List.getElem?_cons_succ, ih, List.getElem?_cons_succ]
          congr 1
          funext node
          have shifted : start + 1 + offset = start + (offset + 1) := by omega
          cases offset <;> simp [shifted]

namespace Graph

/-- From the handle `start` on, the graph holds the given vertices and no others, each linked to
the next. -/
def HasPath (graph : Graph) (start : Nat) (incoming outgoing : List VertexId) (nodes : List Node) :
    Prop :=
  ∀ offset, graph.vertex? ⟨start + offset⟩ = (linked start incoming outgoing nodes)[offset]?

namespace HasPath

variable {graph : Graph} {start offset : Nat} {incoming outgoing : List VertexId}
  {nodes : List Node}

section

variable (path : graph.HasPath start incoming outgoing nodes)

include path

theorem vertex (offset : Nat) :
    graph.vertex? ⟨start + offset⟩ = nodes[offset]?.map fun node =>
      { node with
        children := if offset + 1 = nodes.length then outgoing else [⟨start + offset + 1⟩]
        parents := if offset = 0 then incoming else [⟨start + offset - 1⟩] } := by
  rw [path, getElem?_linked]

theorem live (inside : offset < nodes.length) : graph.contains ⟨start + offset⟩ = true := by
  simp [contains, path.vertex, inside]

theorem lt_of_live {id : VertexId} (live : graph.contains id = true) :
    id.index < start + nodes.length := by
  by_contra beyond
  have found := path.vertex (id.index - start)
  have same : start + (id.index - start) = id.index := by omega
  rw [same, List.getElem?_eq_none (by omega)] at found
  simp [contains, show graph.vertex? id = none from found] at live

theorem neighbours_beyond (beyond : nodes.length ≤ offset) :
    graph.children ⟨start + offset⟩ = [] ∧ graph.parents ⟨start + offset⟩ = [] := by
  simp [Graph.children, Graph.parents, path.vertex, List.getElem?_eq_none beyond]

theorem children (inside : offset < nodes.length) :
    graph.children ⟨start + offset⟩ =
      if offset + 1 = nodes.length then outgoing else [⟨start + offset + 1⟩] := by
  simp [Graph.children, path.vertex, inside]

theorem parents (inside : offset < nodes.length) :
    graph.parents ⟨start + offset⟩ = if offset = 0 then incoming else [⟨start + offset - 1⟩] := by
  simp [Graph.parents, path.vertex, inside]

/-- The head of the path reaches all of it. -/
theorem reaches (inside : offset < nodes.length) :
    graph.edges.Reaches ⟨start⟩ ⟨start + offset⟩ := by
  induction offset with
  | zero => exact .refl _
  | succ offset ih =>
      apply (ih (by omega)).tail
      change _ ∈ graph.children _
      rw [path.children (by omega), if_neg (by omega)]
      simp [Nat.add_assoc]

/-- The vertex at a handle of the path comes from a member of the list. -/
theorem exists_node {id : VertexId} {vertex : Vertex} (fresh : start ≤ id.index)
    (found : graph.vertex? id = some vertex) :
    ∃ node ∈ nodes, vertex.toNode = node ∧
      ((node ∈ nodes.dropLast ∧ vertex.children.length = 1) ∨
        (nodes.getLast? = some node ∧ vertex.children = outgoing)) := by
  rcases id with ⟨index⟩
  rcases Nat.exists_eq_add_of_le fresh with ⟨offset, (rfl : index = start + offset)⟩
  rw [path.vertex, Option.map_eq_some_iff] at found
  rcases found with ⟨node, place, rfl⟩
  have inside : offset < nodes.length := (List.getElem?_eq_some_iff.mp place).1
  refine ⟨node, List.mem_of_getElem? place, rfl, ?_⟩
  by_cases ends : offset + 1 = nodes.length
  · right
    have last : nodes.length - 1 = offset := by omega
    exact ⟨by rw [List.getLast?_eq_getElem?, last, place], by simp [ends]⟩
  · left
    refine ⟨List.mem_of_getElem? (i := offset) ?_, by simp [ends]⟩
    rw [List.getElem?_dropLast, if_pos (by omega), place]

/-- A path of straight vertices with any last one is a stretch. -/
theorem stretch (straight : ∀ node ∈ nodes.dropLast, node.kind.exit = .next)
    (inside : offset < nodes.length) :
    graph.Stretch ⟨start + offset⟩ ((nodes.drop offset).map Node.kind) outgoing := by
  induction remaining : nodes.length - (offset + 1) generalizing offset with
  | zero =>
      have ends : offset + 1 = nodes.length := by omega
      have found := path.vertex offset
      rw [List.getElem?_eq_getElem inside, Option.map_some, if_pos ends] at found
      have stretch := Stretch.last found
      rwa [List.drop_eq_getElem_cons inside, ends, List.drop_length]
  | succ remaining ih =>
      have more : offset + 1 < nodes.length := by omega
      have found := path.vertex offset
      rw [List.getElem?_eq_getElem inside, Option.map_some, if_neg (by omega)] at found
      have inner : nodes[offset] ∈ nodes.dropLast := by
        rw [List.mem_iff_getElem]
        exact ⟨offset, by rw [List.length_dropLast]; omega, by rw [List.getElem_dropLast]⟩
      rw [List.drop_eq_getElem_cons inside, List.map_cons]
      exact .cons found (straight _ inner) rfl (ih more (by omega))

theorem count_children {source : VertexId} (fresh : start ≤ source.index) (target : VertexId) :
    (graph.children source).count target =
      if source.index + 1 = start + nodes.length then outgoing.count target
      else if source.index < start + nodes.length ∧ target.index = source.index + 1 then 1
        else 0 := by
  rcases source with ⟨index⟩
  rcases target with ⟨place⟩
  rcases Nat.exists_eq_add_of_le fresh with ⟨offset, (rfl : index = start + offset)⟩
  rcases Nat.lt_or_ge offset nodes.length with inside | beyond
  · simp only [path.children inside, Nat.add_assoc, Nat.add_left_cancel_iff,
      Nat.add_lt_add_iff_left, inside, true_and]
    split_ifs with ends same
    · rfl
    · simp [same]
    · rwa [List.count_eq_zero, List.mem_singleton, VertexId.mk.injEq]
  · simp only [(path.neighbours_beyond beyond).1, List.count_nil]
    rw [if_neg (by omega), if_neg (by omega)]

theorem count_parents (nonempty : 0 < nodes.length) {target : VertexId}
    (fresh : start ≤ target.index) (source : VertexId) :
    (graph.parents target).count source =
      if target.index = start then incoming.count source
      else if target.index < start + nodes.length ∧ target.index = source.index + 1 then 1
        else 0 := by
  rcases source with ⟨place⟩
  rcases target with ⟨index⟩
  rcases Nat.exists_eq_add_of_le fresh with ⟨offset, (rfl : index = start + offset)⟩
  rcases Nat.lt_or_ge offset nodes.length with inside | beyond
  · simp only [path.parents inside, Nat.add_eq_left, Nat.add_lt_add_iff_left, inside, true_and]
    split_ifs with starts same
    · rfl
    · simp [same]
    · rw [List.count_eq_zero, List.mem_singleton, VertexId.mk.injEq]
      omega
  · simp only [(path.neighbours_beyond beyond).2, List.count_nil]
    rw [if_neg (by simp; omega), if_neg (by omega)]

/-- Both ends of all edges agree if they do so among the old vertices, and the path is entered by
its head and left by its tail only. -/
theorem mirrored (nonempty : 0 < nodes.length)
    (old : ∀ source target : VertexId, source.index < start → target.index < start →
      (graph.children source).count target = (graph.parents target).count source)
    (enters : ∀ source target : VertexId, source.index < start → start ≤ target.index →
      (graph.children source).count target =
        if target.index = start then incoming.count source else 0)
    (leaves : ∀ source target : VertexId, start ≤ source.index → target.index < start →
      (graph.parents target).count source =
        if source.index + 1 = start + nodes.length then outgoing.count target else 0)
    (loops : ∀ source target : VertexId, start ≤ source.index → start ≤ target.index →
      (if source.index + 1 = start + nodes.length then outgoing.count target else 0) =
        if target.index = start then incoming.count source else 0)
    (source target : VertexId) :
    (graph.children source).count target = (graph.parents target).count source := by
  rcases Nat.lt_or_ge source.index start with sourceOld | sourceFresh <;>
    rcases Nat.lt_or_ge target.index start with targetOld | targetFresh
  · exact old source target sourceOld targetOld
  · rw [enters source target sourceOld targetFresh, path.count_parents nonempty targetFresh]
    split_ifs <;> first | rfl | omega
  · rw [leaves source target sourceFresh targetOld, path.count_children sourceFresh]
    split_ifs <;> first | rfl | omega
  · have loop := loops source target sourceFresh targetFresh
    rw [path.count_children sourceFresh, path.count_parents nonempty targetFresh]
    split_ifs at loop ⊢ <;> omega

end

end HasPath

end Graph

end StackFlow
