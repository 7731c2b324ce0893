import Mathlib
import StackFlow.Proofs.Rule.Extraction
import StackFlow.Proofs.Termination.Rank

/-!
# Copies leave the load alone

When a shared run is copied for one of the edges into it, the share of this edge goes
to the copies, and the vertices of the run keep the rest of theirs. A rest remains, as
the run is entered by another edge as well. Each vertex then has as much to spare as
before, and the load is the same. The run lies on no cycle, so neither do its copies,
and no cycle is opened.
-/

namespace StackFlow

namespace Graph

variable {graph other : Graph} {anchor id : VertexId} {shared exits : List VertexId}
  {share : VertexId → ℕ}

/-- A straight run of vertices on no cycle, entered from the anchor and by another edge. -/
structure SharedRun (graph : Graph) (anchor : VertexId) (shared exits : List VertexId) : Prop where
  live : ∀ id ∈ anchor :: shared, graph.contains id = true
  nodup : (anchor :: shared).Nodup
  linked : (anchor :: shared).IsChain fun source target => graph.children source = [target]
  leaves : graph.children (shared.getLastD anchor) = exits
  acyclic : ∀ id ∈ shared, graph.onCycle id = false
  entered : ∃ first rest parent, shared = first :: rest ∧ parent ≠ anchor ∧
    first ∈ graph.children parent

theorem sum_count_children {source : VertexId} {targets : List VertexId}
    (linked : (source :: targets).IsChain fun source target => graph.children source = [target])
    (leaves : graph.children (targets.getLastD source) = exits) (id : VertexId) :
    ((source :: targets).map fun source => (graph.children source).count id).sum =
      targets.count id + exits.count id := by
  induction targets generalizing source with
  | nil => simpa using congrArg (List.count id) leaves
  | cons next targets ih =>
      rw [List.isChain_cons_cons] at linked
      rw [List.getLastD_cons] at leaves
      rw [List.map_cons, List.sum_cons, ih linked.2 leaves, linked.1]
      simp only [List.count_cons, List.count_nil]
      omega

theorem Weighting.add_share_le {source parent target : VertexId} (weighting : graph.Weighting share)
    (apart : parent ≠ source) (edge : target ∈ graph.children source)
    (otherEdge : target ∈ graph.children parent) (acyclic : graph.onCycle target = false) :
    share source + share parent ≤ share target := by
  have listed : {source, parent} ⊆ graph.idSet := by
    simp [Finset.insert_subset_iff, live_of_mem_children edge, live_of_mem_children otherEdge]
  calc share source + share parent
      ≤ (graph.children source).count target * share source +
          (graph.children parent).count target * share parent := by
        apply Nat.add_le_add
        · exact Nat.le_mul_of_pos_left _ (List.count_pos_iff.mpr edge)
        · exact Nat.le_mul_of_pos_left _ (List.count_pos_iff.mpr otherEdge)
    _ = ∑ before ∈ {source, parent}, (graph.children before).count target * share before := by
        rw [Finset.sum_pair apart.symm]
    _ ≤ graph.inflow share target := Finset.sum_le_sum_of_subset listed
    _ ≤ share target := weighting.flow acyclic

/-- The shares once the run has been copied: the copies have the share of the anchor, and the run
keeps the rest. -/
def divided (graph : Graph) (share : VertexId → ℕ) (anchor : VertexId) (shared : List VertexId)
    (id : VertexId) : ℕ :=
  if id.index < graph.slots.size then share id - share anchor * shared.count id else share anchor

namespace SharedRun

variable (run : graph.SharedRun anchor shared exits)

include run

theorem onCycle_anchor : graph.onCycle anchor = false := by
  rcases run.entered with ⟨first, rest, -, rfl, -, -⟩
  have leads := (List.isChain_cons_cons.mp run.linked).1
  exact acyclic_of_cyclic_kept (onCycle_only_child leads) (run.acyclic first (by simp))

theorem share_lt (weighting : graph.Weighting share) : ∀ id ∈ shared, share anchor < share id := by
  rcases run with ⟨-, -, linked, -, acyclic, first, rest, parent, rfl, apart, entered⟩
  rw [List.isChain_cons_cons] at linked
  have least : share anchor < share first := by
    have edge : first ∈ graph.children anchor := by simp [linked.1]
    have both := weighting.add_share_le apart edge entered (acyclic first (by simp))
    have positive := weighting.pos parent
    omega
  replace linked := linked.2
  clear entered
  induction rest generalizing first with
  | nil => simpa using least
  | cons next rest ih =>
      rw [List.isChain_cons_cons] at linked
      have edge : next ∈ graph.children first := by simp [linked.1]
      have onward := weighting.share_le edge (acyclic next (by simp))
      intro id member
      rcases List.mem_cons.mp member with rfl | behind
      · exact least
      · exact ih next (fun id member => acyclic id (List.mem_cons_of_mem _ member))
          (by omega) linked.2 id behind

theorem share_eq (weighting : graph.Weighting share) (old : id.index < graph.slots.size) :
    share id = graph.divided share anchor shared id + share anchor * shared.count id := by
  rw [divided, if_pos old, Nat.sub_add_cancel]
  by_cases member : id ∈ shared
  · rw [List.count_eq_one_of_mem (List.nodup_cons.mp run.nodup).2 member, Nat.mul_one]
    exact (run.share_lt weighting id member).le
  · simp [List.count_eq_zero_of_not_mem member]

theorem divided_pos (weighting : graph.Weighting share) (id : VertexId) :
    0 < graph.divided share anchor shared id := by
  unfold divided
  split_ifs
  · by_cases member : id ∈ shared
    · have less := run.share_lt weighting id member
      rw [List.count_eq_one_of_mem (List.nodup_cons.mp run.nodup).2 member]
      omega
    · simpa [List.count_eq_zero_of_not_mem member] using weighting.pos id
  · exact weighting.pos anchor

theorem divided_anchor : graph.divided share anchor shared anchor = share anchor := by
  have outside : anchor ∉ shared := (List.nodup_cons.mp run.nodup).1
  simp [divided, List.count_eq_zero_of_not_mem outside]

end SharedRun

namespace Extracted

variable {first : VertexId} {nodes : List Node}
  (extracted : graph.Extracted other anchor first exits nodes)

include extracted

theorem weight_old (old : id.index < graph.slots.size) : other.weight id = graph.weight id := by
  rw [weight, extracted.old old, weight, Option.map_map]
  rfl

theorem sum_idSet (value : VertexId → ℕ) :
    ∑ id ∈ other.idSet, value id =
      ∑ id ∈ graph.idSet, value id +
        ∑ offset ∈ Finset.range nodes.length, value ⟨graph.slots.size + offset⟩ := by
  have old : other.idSet.filter (·.index < graph.slots.size) = graph.idSet := by
    ext id
    simp only [Finset.mem_filter, mem_idSet]
    constructor
    · rintro ⟨live, old⟩
      simpa [contains, extracted.old old] using live
    · intro live
      have old := index_lt_of_live live
      exact ⟨by simpa [contains, extracted.old old] using live, old⟩
  rw [extracted.path.sum_idSet, old]

variable (run : graph.SharedRun anchor shared exits) (weighting : graph.Weighting share)

include run

/-- Every vertex gives up as much of its share as it gives up of what enters it. -/
theorem inflow_eq_divided (weighting : graph.Weighting share) (old : id.index < graph.slots.size) :
    graph.inflow share id =
      other.inflow (graph.divided share anchor shared) id + share anchor * shared.count id := by
  have nonempty := extracted.nonempty
  have perSource (source : VertexId) (live : graph.contains source = true) :
      (graph.children source).count id * share source =
        (other.children source).count id * graph.divided share anchor shared source +
          share anchor * ((anchor :: shared).count source * (graph.children source).count id) := by
    have sourceOld := index_lt_of_live live
    rw [extracted.count_children_old sourceOld]
    by_cases isAnchor : source = anchor
    · subst isAnchor
      rw [if_pos rfl, if_neg (by omega), List.count_cons_self,
        List.count_eq_zero_of_not_mem (List.nodup_cons.mp run.nodup).1]
      ring
    · rw [if_neg isAnchor, List.count_cons_of_ne (Ne.symm isAnchor)]
      nth_rewrite 1 [run.share_eq weighting sourceOld]
      ring
  have passed :
      ∑ source ∈ graph.idSet, (anchor :: shared).count source * (graph.children source).count id =
        shared.count id + exits.count id := by
    rw [sum_count_mul run.live, sum_count_children run.linked run.leaves]
  have copies : ∑ offset ∈ Finset.range nodes.length,
      (other.children ⟨graph.slots.size + offset⟩).count id *
        graph.divided share anchor shared ⟨graph.slots.size + offset⟩ =
      exits.count id * share anchor := by
    rw [Finset.sum_eq_single (nodes.length - 1)]
    · simp [divided, extracted.path.children (show nodes.length - 1 < nodes.length by omega),
        show nodes.length - 1 + 1 = nodes.length by omega]
    · intro offset member notLast
      rw [Finset.mem_range] at member
      have absent : id ∉ other.children ⟨graph.slots.size + offset⟩ := by
        rw [extracted.path.children member, if_neg (by omega), List.mem_singleton]
        rintro rfl
        simp only at old
        omega
      rw [List.count_eq_zero_of_not_mem absent, Nat.zero_mul]
    · simp [nonempty]
  have total := Finset.sum_congr rfl fun source member => perSource source (mem_idSet.mp member)
  rw [Finset.sum_add_distrib, ← Finset.mul_sum, passed] at total
  rw [inflow, total, inflow, extracted.sum_idSet, copies]
  ring

/-- A copy is entered by one edge, which has the share of the anchor. -/
theorem inflow_copy_le (otherConsistent : other.Consistent) (fresh : graph.slots.size ≤ id.index) :
    other.inflow (graph.divided share anchor shared) id ≤ graph.divided share anchor shared id := by
  rw [inflow_eq otherConsistent]
  rcases id with ⟨index⟩
  rcases Nat.exists_eq_add_of_le fresh with ⟨offset, (rfl : index = graph.slots.size + offset)⟩
  rcases Nat.lt_or_ge offset nodes.length with inside | beyond
  · have own : graph.divided share anchor shared ⟨graph.slots.size + offset⟩ = share anchor := by
      simp [divided]
    rw [extracted.path.parents inside]
    split_ifs with starts
    · simp [run.divided_anchor, own]
    · have behind : ¬graph.slots.size + offset - 1 < graph.slots.size := by omega
      simp [divided, behind]
  · simp [(extracted.path.neighbours_beyond beyond).2]

theorem onCycle_old (otherConsistent : other.Consistent) (cyclic : graph.onCycle id = true) :
    other.onCycle id = true := by
  have live : graph.contains id = true := by
    rcases onCycle_iff.mp cyclic with ⟨next, edge, -⟩
    exact live_of_mem_children edge
  refine onCycle_of_kept otherConsistent (fun {source next} onCycle _ edge => ?_) ?_ cyclic
  · rcases extracted.edge_kept edge with ⟨rfl, -⟩ | kept
    · simp [run.onCycle_anchor] at onCycle
    · exact kept
  · simpa [contains, extracted.old (index_lt_of_live live)] using live

include weighting

theorem weighting_divided (otherConsistent : other.Consistent) :
    other.Weighting (graph.divided share anchor shared) := by
  refine ⟨run.divided_pos weighting, fun {id} acyclic => ?_⟩
  rcases Nat.lt_or_ge id.index graph.slots.size with old | fresh
  · have enters := extracted.inflow_eq_divided run weighting old
    have keeps := run.share_eq weighting old
    have flow :=
      weighting.flow (acyclic_of_cyclic_kept (extracted.onCycle_old run otherConsistent) acyclic)
    omega
  · exact extracted.inflow_copy_le run otherConsistent fresh

theorem load_divided (copied : totalWeight (nodes.map Node.kind) = (shared.map graph.weight).sum) :
    other.load (graph.divided share anchor shared) = graph.load share := by
  have kept : ∑ id ∈ graph.idSet, graph.divided share anchor shared id * other.weight id =
      ∑ id ∈ graph.idSet, graph.divided share anchor shared id * graph.weight id := by
    apply Finset.sum_congr rfl
    intro id member
    rw [extracted.weight_old (index_lt_of_live (mem_idSet.mp member))]
  have copies : ∑ offset ∈ Finset.range nodes.length,
      graph.divided share anchor shared ⟨graph.slots.size + offset⟩ *
        other.weight ⟨graph.slots.size + offset⟩ =
      share anchor * (shared.map graph.weight).sum := by
    rw [← copied, ← extracted.path.sum_weight, Finset.mul_sum]
    simp [divided]
  have given : graph.load share =
      ∑ id ∈ graph.idSet, graph.divided share anchor shared id * graph.weight id +
        share anchor * (shared.map graph.weight).sum := by
    rw [← sum_count_mul fun id member => run.live id (List.mem_cons_of_mem _ member),
      Finset.mul_sum, ← Finset.sum_add_distrib, load]
    apply Finset.sum_congr rfl
    intro id member
    nth_rewrite 1 [run.share_eq weighting (index_lt_of_live (mem_idSet.mp member))]
    ring
  rw [load, extracted.sum_idSet, kept, copies, given]

omit run weighting in
theorem loops_le
    (old : ∀ {id}, graph.contains id = true → other.onCycle id = true → graph.onCycle id = true)
    (copies : ∀ {offset}, offset < nodes.length →
      other.onCycle ⟨graph.slots.size + offset⟩ = false) : other.loops ≤ graph.loops := by
  have noSurplus :
      ∑ offset ∈ Finset.range nodes.length, other.surplus ⟨graph.slots.size + offset⟩ = 0 := by
    apply Finset.sum_eq_zero
    intro offset member
    simp [surplus, copies (Finset.mem_range.mp member)]
  rw [loops, extracted.sum_idSet, noSurplus, Nat.add_zero]
  apply Finset.sum_le_sum
  intro id member
  have live := mem_idSet.mp member
  apply surplus_le (old live)
  rw [extracted.children_old (index_lt_of_live live)]
  split_ifs with isAnchor
  · simp [isAnchor, extracted.leads]
  · exact le_rfl

end Extracted

section Chains

variable {chain : Chain} {first anchor : Link} {others : List Link} (inside : chain.In graph)
  (consistent : graph.Consistent) (shape : chain.shared = first :: others)
  (extracted : graph.Extracted other anchor.id first.id chain.exits
    (chain.shared.map (·.vertex.toNode)))
  (anchorLast : chain.privateLinks.getLast? = some anchor)
  (acyclic : ∀ link ∈ chain.shared, graph.onCycle link.id = false)

include inside consistent shape extracted

theorem onCycle_of_extracted {id : VertexId} (cyclic : other.onCycle id = true) :
    graph.onCycle (graph.origin chain.shared id) = true := by
  have edges {source next : VertexId} (edge : next ∈ other.children source) :
      graph.origin chain.shared next ∈ graph.children (graph.origin chain.shared source) := by
    rcases contains_iff.mp (live_of_mem_children edge) with ⟨vertex, found⟩
    rcases view_origin_of_extracted inside consistent shape extracted found with
      ⟨before, foundBefore, -, leads⟩
    rw [children_eq foundBefore, ← leads, ← children_eq found]
    exact List.mem_map_of_mem edge
  refine onCycle_rename (graph.origin chain.shared) ?_ ?_ cyclic
  · intro next edge
    exact ⟨_, edges edge, .refl _⟩
  · intro source next edge
    exact .step (edges edge) (.refl _)

include anchorLast acyclic

theorem sharedRun_of_extracted :
    graph.SharedRun anchor.id (chain.shared.map Link.id) chain.exits := by
  have anchorMember := chain.mem_links_of_mem_private (List.mem_of_getLast? anchorLast)
  have among : ∀ link ∈ anchor :: chain.shared, link ∈ chain.links := by
    intro link member
    rcases List.mem_cons.mp member with rfl | member
    · exact anchorMember
    · exact chain.mem_links_of_mem_shared member
  have linked : (anchor :: chain.shared).IsChain Link.LeadsTo := by
    have links := inside.linked_shared
    rw [shape] at links ⊢
    exact List.isChain_cons_cons.mpr ⟨inside.anchor_leads shape anchorLast, links⟩
  refine ⟨?_, ?_, ?_, ?_, ?_, ?_⟩
  · intro id member
    rw [← List.map_cons] at member
    rcases List.mem_map.mp member with ⟨link, listed, rfl⟩
    exact inside.live (among link listed)
  · have distinct := inside.nodup_ids
    rw [List.nodup_append] at distinct
    refine List.nodup_cons.mpr ⟨?_, distinct.2.1⟩
    intro again
    exact distinct.2.2 anchor.id (List.mem_map_of_mem (List.mem_of_getLast? anchorLast)) anchor.id
      again rfl
  · rw [← List.map_cons, List.isChain_map]
    refine linked.imp_of_mem_imp fun source target sourceMember _ leads => ?_
    rw [children_eq (inside.found source (among source sourceMember)), leads.2]
  · rw [List.getLastD_eq_getLast?, List.getLast?_map, chain.getLast?_shared (by simp [shape])]
    exact children_eq inside.found_last
  · intro id member
    rcases List.mem_map.mp member with ⟨link, listed, rfl⟩
    exact acyclic link listed
  · rcases extracted.exists_other_parent consistent (inside.parents_first shape) with
      ⟨parent, edge, apart⟩
    exact ⟨first.id, others.map Link.id, parent, by simp [shape], apart,
      consistent.mem_children_iff.mpr edge⟩

theorem lightens_of_extracted (otherConsistent : other.Consistent) : Lightens 0 graph other := by
  have run := sharedRun_of_extracted inside consistent shape extracted anchorLast acyclic
  have origin {id : VertexId} (cyclic : other.onCycle id = true) :
      graph.onCycle (graph.origin chain.shared id) = true :=
    onCycle_of_extracted inside consistent shape extracted cyclic
  refine ⟨?_, extracted.loops_le ?_ ?_, ?_⟩
  · intro settled id vertex found access member
    rcases view_origin_of_extracted inside consistent shape extracted found with
      ⟨before, foundBefore, kind, -⟩
    rw [extracted.grid]
    exact settled _ before foundBefore access (kind ▸ member)
  · intro id live cyclic
    rw [← origin_of_live live]
    exact origin cyclic
  · intro offset bound
    rw [List.length_map] at bound
    by_contra cyclic
    have again := origin (by simpa using cyclic)
    rw [origin_copy (List.getElem?_eq_getElem bound), acyclic _ (List.getElem_mem bound)] at again
    cases again
  · intro share weighting
    have copied : totalWeight ((chain.shared.map (·.vertex.toNode)).map Node.kind) =
        ((chain.shared.map Link.id).map graph.weight).sum := by
      rw [totalWeight, List.map_map, List.map_map, List.map_map]
      congr 1
      apply List.map_congr_left
      intro link member
      exact (weight_eq (inside.found link (chain.mem_links_of_mem_shared member))).symm
    refine ⟨_, extracted.weighting_divided run weighting otherConsistent, ?_⟩
    exact (extracted.load_divided run weighting copied).le

end Chains

/-- A chain is freed of what it shares with other paths at no cost. -/
theorem Unshared.lightens {chain : Chain} (unshared : graph.Unshared other chain)
    (inside : chain.In graph) (acyclic : ∀ link ∈ chain.shared, graph.onCycle link.id = false)
    (consistent : graph.Consistent) (otherConsistent : other.Consistent) :
    Lightens 0 graph other := by
  rcases unshared with rfl | ⟨anchor, first, others, shape, anchorLast, extracted⟩
  · exact .refl other
  · exact lightens_of_extracted inside consistent shape extracted anchorLast acyclic otherConsistent

end Graph

end StackFlow
