import Mathlib
import StackFlow.Proofs.Graph.Path
import StackFlow.Proofs.Graph.Tree
import StackFlow.Proofs.Rule.Corridor
import StackFlow.Proofs.Rule.Cost

/-!
# Weighted graphs

A rule may copy a shared run of vertices before it replaces one of the copies, so a
graph can grow on its way to a simpler one. To see that it does get simpler, each
vertex is given a share. A vertex on no cycle has at least the shares of all edges
that enter it, and when it is copied for one of them, its share is divided between
the vertex and the copy. A vertex on a cycle is never copied and may have any share
but zero.

The load of a graph is the weight of its vertices, each multiplied with its share.
Copies leave it as it was, and whatever costs less lowers it.
-/

namespace StackFlow

namespace Graph

variable {graph other : Graph} {id source target : VertexId}

section Cycles

theorem acyclic_of_cyclic_kept (kept : graph.onCycle source = true → other.onCycle target = true)
    (acyclic : other.onCycle target = false) : graph.onCycle source = false := by
  rw [Bool.eq_false_iff] at acyclic ⊢
  exact mt kept acyclic

/-- A map that turns edges into paths keeps a vertex on a cycle if none of its own edges
vanishes. -/
theorem onCycle_rename (rename : VertexId → VertexId)
    (leaves : ∀ {next}, next ∈ graph.children id → other.edges.Moves (rename id) (rename next))
    (edges : ∀ {source next}, next ∈ graph.children source →
      other.edges.Reaches (rename source) (rename next))
    (cyclic : graph.onCycle id = true) : other.onCycle (rename id) = true := by
  rcases onCycle_iff.mp cyclic with ⟨next, edge, back⟩
  exact onCycle_iff.mpr ((leaves edge).trans (back.map edges))

/-- Cycles are kept if the vertices on cycles keep their edges. -/
theorem onCycle_of_kept (consistent : other.Consistent)
    (kept : ∀ {source next}, graph.onCycle source = true → other.contains source = true →
      next ∈ graph.children source → next ∈ other.children source)
    (live : other.contains id = true) (cyclic : graph.onCycle id = true) :
    other.onCycle id = true := by
  have stays {first last : VertexId} (path : graph.edges.Reaches first last)
      (back : graph.edges.Reaches last first) (firstLive : other.contains first = true) :
      other.edges.Reaches first last := by
    induction path with
    | refl _ => exact .refl _
    | step edge rest ih =>
        have keptEdge := kept (onCycle_iff.mpr ⟨_, edge, rest.trans back⟩) firstLive edge
        exact .step keptEdge (ih (back.tail edge) (consistent.child_live keptEdge))
  rcases onCycle_iff.mp cyclic with ⟨next, edge, back⟩
  have keptEdge := kept cyclic live edge
  have toNext : graph.edges.Reaches id next := .step edge (.refl next)
  exact onCycle_iff.mpr ⟨next, keptEdge, stays back toNext (consistent.child_live keptEdge)⟩

theorem onCycle_only_child (leads : graph.children source = [target])
    (cyclic : graph.onCycle source = true) : graph.onCycle target = true := by
  rcases onCycle_iff.mp cyclic with ⟨next, edge, back⟩
  have isTarget : next ∈ graph.children source := edge
  rw [leads, List.mem_singleton] at isTarget
  subst isTarget
  exact onCycle_iff.mpr (back.moves ⟨next, edge, .refl next⟩)

/-- Vertices joined by their only edge lie on a cycle together. -/
theorem Joins.onCycle_eq (consistent : graph.Consistent) (joins : graph.Joins source target) :
    graph.onCycle target = graph.onCycle source := by
  rw [Bool.eq_iff_iff]
  constructor
  · intro cyclic
    rcases (onCycle_iff.mp cyclic).exists_last with ⟨before, path, ends⟩
    have isSource : before ∈ graph.parents target := consistent.mem_children_iff.mp ends
    rw [joins.2, List.mem_singleton] at isSource
    have edge : target ∈ graph.children source := by simp [joins.1]
    exact onCycle_iff.mpr ⟨target, edge, isSource ▸ path⟩
  · exact onCycle_only_child joins.1

end Cycles

/-- The handles of all vertices. -/
def idSet (graph : Graph) : Finset VertexId :=
  graph.ids.toFinset

@[simp]
theorem mem_idSet : id ∈ graph.idSet ↔ graph.contains id = true := by
  rw [idSet, List.mem_toFinset, mem_ids]

theorem sum_count_mul {ids : List VertexId} (live : ∀ id ∈ ids, graph.contains id = true)
    (value : VertexId → ℕ) : ∑ id ∈ graph.idSet, ids.count id * value id = (ids.map value).sum := by
  induction ids with
  | nil => simp
  | cons first ids ih =>
      have listed : first ∈ graph.idSet := mem_idSet.mpr (live first (by simp))
      have rest := ih fun id member => live id (List.mem_cons_of_mem _ member)
      simp only [List.count_cons, beq_iff_eq, Nat.add_mul, Finset.sum_add_distrib, rest, ite_mul,
        Nat.one_mul, Nat.zero_mul, Finset.sum_ite_eq, if_pos listed, List.map_cons, List.sum_cons]
      exact Nat.add_comm _ _

/-- A sum over a graph that ends with a path is one over the vertices before and one over the
path. -/
theorem HasPath.sum_idSet {start : ℕ} {incoming outgoing : List VertexId} {nodes : List Node}
    (path : graph.HasPath start incoming outgoing nodes) (value : VertexId → ℕ) :
    ∑ id ∈ graph.idSet, value id =
      ∑ id ∈ graph.idSet with id.index < start, value id +
        ∑ offset ∈ Finset.range nodes.length, value ⟨start + offset⟩ := by
  have fresh : graph.idSet.filter (¬·.index < start) =
      (Finset.range nodes.length).image fun offset => (⟨start + offset⟩ : VertexId) := by
    ext id
    simp only [Finset.mem_filter, mem_idSet, Finset.mem_image, Finset.mem_range]
    constructor
    · rintro ⟨live, behind⟩
      have inside := path.lt_of_live live
      refine ⟨id.index - start, by omega, ?_⟩
      cases id
      simp only [VertexId.mk.injEq] at behind ⊢
      omega
    · rintro ⟨offset, inside, rfl⟩
      exact ⟨path.live inside, by simp⟩
  rw [← Finset.sum_filter_add_sum_filter_not graph.idSet (·.index < start), fresh, Finset.sum_image]
  intro first _ second _ same
  simpa using same

/-- The weight of a vertex. -/
def weight (graph : Graph) (id : VertexId) : ℕ :=
  ((graph.vertex? id).map (·.kind.weight)).getD 0

theorem weight_eq {vertex : Vertex} (found : graph.vertex? id = some vertex) :
    graph.weight id = vertex.kind.weight := by
  simp [weight, found]

theorem HasPath.sum_weight {start : ℕ} {incoming outgoing : List VertexId} {nodes : List Node}
    (path : graph.HasPath start incoming outgoing nodes) :
    ∑ offset ∈ Finset.range nodes.length, graph.weight ⟨start + offset⟩ =
      totalWeight (nodes.map Node.kind) := by
  rw [totalWeight, List.map_map, ← Fin.sum_univ_fun_getElem, Finset.sum_range]
  apply Finset.sum_congr rfl
  intro offset _
  simp [weight, path.vertex]

/-- The shares of all edges that enter a vertex, each edge having the share of its source. -/
def inflow (graph : Graph) (share : VertexId → ℕ) (id : VertexId) : ℕ :=
  ∑ source ∈ graph.idSet, (graph.children source).count id * share source

/-- The weight of the graph, where each vertex counts as often as its share says. -/
def load (graph : Graph) (share : VertexId → ℕ) : ℕ :=
  ∑ id ∈ graph.idSet, share id * graph.weight id

/-- Every vertex has a share, and one that lies on no cycle has enough for all edges that enter
it. -/
structure Weighting (graph : Graph) (share : VertexId → ℕ) : Prop where
  pos : ∀ id, 0 < share id
  flow : ∀ {id}, graph.onCycle id = false → graph.inflow share id ≤ share id

theorem inflow_eq (consistent : graph.Consistent) (share : VertexId → ℕ) (id : VertexId) :
    graph.inflow share id = ((graph.parents id).map share).sum := by
  rw [Finset.sum_list_map_count, inflow]
  have live : (graph.parents id).toFinset ⊆ graph.idSet := by
    intro source member
    rw [mem_idSet]
    exact consistent.parent_live (List.mem_toFinset.mp member)
  symm
  refine (Finset.sum_subset live ?_).trans (Finset.sum_congr rfl ?_)
  · intro source _ outside
    rw [List.mem_toFinset] at outside
    rw [List.count_eq_zero_of_not_mem outside, zero_smul]
  · intro source _
    rw [consistent.mirrored, smul_eq_mul]

/-- An edge to a vertex on no cycle leads to a share that is no smaller. -/
theorem Weighting.share_le {share : VertexId → ℕ} (weighting : graph.Weighting share)
    (edge : target ∈ graph.children source) (acyclic : graph.onCycle target = false) :
    share source ≤ share target := by
  have listed : source ∈ graph.idSet := mem_idSet.mpr (live_of_mem_children edge)
  calc share source
      ≤ (graph.children source).count target * share source :=
        Nat.le_mul_of_pos_left _ (List.count_pos_iff.mpr edge)
    _ ≤ graph.inflow share target :=
        Finset.single_le_sum
          (f := fun before => (graph.children before).count target * share before)
          (fun _ _ => Nat.zero_le _) listed
    _ ≤ share target := weighting.flow acyclic

section Existence

open Classical in
/-- The vertices from which a vertex is reached. -/
noncomputable def ancestors (graph : Graph) (id : VertexId) : Finset VertexId :=
  {source ∈ graph.idSet | graph.edges.Reaches source id}

/-- The predecessors of a vertex on no cycle have fewer ancestors. -/
theorem card_ancestors_lt (consistent : graph.Consistent) (edge : target ∈ graph.children source)
    (acyclic : graph.onCycle target = false) :
    (graph.ancestors source).card < (graph.ancestors target).card := by
  apply Finset.card_lt_card
  rw [Finset.ssubset_iff_of_subset]
  · refine ⟨target, ?_, ?_⟩
    · simp [ancestors, consistent.child_live edge, Digraph.Reaches.refl]
    · intro member
      have path : graph.edges.Reaches target source := by
        simpa [ancestors, consistent.child_live edge] using member
      have cyclic := onCycle_iff.mpr (path.moves ⟨target, edge, .refl target⟩)
      simp [acyclic] at cyclic
  · intro before member
    simp only [ancestors, Finset.mem_filter] at member ⊢
    exact ⟨member.1, member.2.tail edge⟩

/-- Shares can be found for every consistent graph. They grow with the number of ancestors, by a
factor greater than the number of edges. -/
theorem exists_weighting (consistent : graph.Consistent) : ∃ share, graph.Weighting share := by
  let base := ∑ source ∈ graph.idSet, (graph.children source).length + 1
  let share := fun id => base ^ (graph.ancestors id).card
  have positive : 0 < base := Nat.succ_pos _
  refine ⟨share, fun id => Nat.pow_pos positive, ?_⟩
  intro id acyclic
  have grows {source : VertexId} (edge : id ∈ graph.children source) :
      base * share source ≤ share id := by
    rw [← pow_succ']
    exact Nat.pow_le_pow_right positive (card_ancestors_lt consistent edge acyclic)
  refine Nat.le_of_mul_le_mul_left (c := base) ?_ positive
  calc base * graph.inflow share id
      = ∑ source ∈ graph.idSet, base * ((graph.children source).count id * share source) :=
        Finset.mul_sum _ _ _
    _ ≤ ∑ source ∈ graph.idSet, (graph.children source).length * share id := by
        apply Finset.sum_le_sum
        intro source _
        by_cases edge : id ∈ graph.children source
        · rw [Nat.mul_left_comm]
          exact Nat.mul_le_mul List.count_le_length (grows edge)
        · simp [List.count_eq_zero_of_not_mem edge]
    _ = (∑ source ∈ graph.idSet, (graph.children source).length) * share id :=
        (Finset.sum_mul _ _ _).symm
    _ ≤ base * share id := Nat.mul_le_mul_right _ (Nat.le_succ _)

end Existence

end Graph

end StackFlow
