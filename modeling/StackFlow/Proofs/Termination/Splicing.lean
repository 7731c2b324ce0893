import Mathlib
import StackFlow.Proofs.Rule.Application
import StackFlow.Proofs.Termination.Extraction

/-!
# Replacements lower the load

The vertices that take the place of a corridor all get the least share of the
corridor, and every other vertex keeps its share. A corridor on no cycle is entered
at its least share, so this is enough for what enters, and no vertex behind it is
asked for more. The new vertices weigh less than the corridor did, so the load is
smaller. If nothing takes the place of the corridor, no share changes at all.

Together with the copies this is what a rule does when it fires, so every chain that
a scan replaces lowers the rank.
-/

namespace StackFlow

namespace Graph

variable {graph other : Graph} {ids : List VertexId} {head tail id : VertexId} {kinds : List Kind}
  {share : VertexId → ℕ} {least : ℕ}

/-- Along edges that are the only ones of their ends, shares do not fall unless the vertices lie on
a cycle. -/
theorem Weighting.along (weighting : graph.Weighting share) (consistent : graph.Consistent)
    {source : VertexId} {targets : List VertexId}
    (linked : (source :: targets).IsChain graph.Joins) :
    ∀ id ∈ targets,
      graph.onCycle id = graph.onCycle source ∧
        (graph.onCycle source = false → share source ≤ share id) := by
  induction targets generalizing source with
  | nil => simp
  | cons next targets ih =>
      rw [List.isChain_cons_cons] at linked
      rcases linked with ⟨joins, linked⟩
      have same := joins.onCycle_eq consistent
      have edge : next ∈ graph.children source := by simp [joins.1]
      have onward (acyclic : graph.onCycle source = false) : share source ≤ share next :=
        weighting.share_le edge (same.trans acyclic)
      intro id member
      rcases List.mem_cons.mp member with rfl | behind
      · exact ⟨same, onward⟩
      · rcases ih linked id behind with ⟨further, grows⟩
        exact ⟨further.trans same,
          fun acyclic => (onward acyclic).trans (grows (same.trans acyclic))⟩

namespace Corridor

variable (corridor : graph.Corridor ids head tail kinds) (consistent : graph.Consistent)

include corridor

theorem exists_cons : ∃ rest, ids = head :: rest := by
  have first := corridor.first
  cases ids with
  | nil => simp at first
  | cons id rest =>
      rw [List.head?_cons, Option.some.injEq] at first
      exact ⟨rest, by rw [first]⟩

theorem sum_idSet (value : VertexId → ℕ) :
    ∑ id ∈ graph.idSet, value id =
      ∑ id ∈ graph.idSet \ ids.toFinset, value id + (ids.map value).sum := by
  have listed : ids.toFinset ⊆ graph.idSet := by
    intro id member
    exact mem_idSet.mpr (corridor.live (List.mem_toFinset.mp member))
  rw [← List.sum_toFinset value corridor.nodup, Finset.sum_sdiff listed]

theorem le_sum_ids (value : VertexId → ℕ) : value tail ≤ (ids.map value).sum :=
  List.le_sum_of_mem (List.mem_map_of_mem corridor.tail_mem)

theorem reaches_tail : graph.edges.Reaches head tail := by
  rcases corridor.exists_cons with ⟨rest, rfl⟩
  have linked := corridor.linked
  have last := corridor.last
  clear corridor
  induction rest generalizing head with
  | nil =>
      cases last
      exact .refl _
  | cons next rest ih =>
      rw [List.isChain_cons_cons] at linked
      rw [List.getLast?_cons_cons] at last
      have edge : next ∈ graph.children head := by simp [linked.1.1]
      exact .step edge (ih linked.2 last)

theorem mul_totalWeight_le (bound : ∀ id ∈ ids, least ≤ share id) :
    least * totalWeight kinds ≤ (ids.map fun id => share id * graph.weight id).sum := by
  have kept := corridor.kept
  clear corridor
  induction kept with
  | nil => simp
  | @cons id kind ids kinds kindOf _ ih =>
      rcases Option.map_eq_some_iff.mp kindOf with ⟨vertex, found, rfl⟩
      have rest := ih fun id member => bound id (List.mem_cons_of_mem _ member)
      have first := Nat.mul_le_mul_right vertex.kind.weight (bound id (by simp))
      rw [List.map_cons, List.sum_cons, totalWeight_cons, Nat.mul_add, weight_eq found]
      omega

include consistent

theorem onCycle_tail (weighting : graph.Weighting share) :
    graph.onCycle tail = graph.onCycle head := by
  rcases corridor.exists_cons with ⟨rest, rfl⟩
  rcases List.mem_cons.mp corridor.tail_mem with same | behind
  · rw [same]
  · exact (weighting.along consistent corridor.linked tail behind).1

/-- A share for what takes the place of the corridor: nothing in the corridor has less, and it is
enough for what enters the corridor. -/
theorem exists_least (weighting : graph.Weighting share) :
    ∃ least, 0 < least ∧ (∀ id ∈ ids, least ≤ share id) ∧
      (graph.onCycle head = false → graph.inflow share head ≤ least) := by
  cases cyclic : graph.onCycle head with
  | true => exact ⟨1, Nat.one_pos, fun id _ => weighting.pos id, by simp⟩
  | false =>
      refine ⟨share head, weighting.pos head, ?_, fun _ => weighting.flow cyclic⟩
      rcases corridor.exists_cons with ⟨rest, rfl⟩
      intro id member
      rcases List.mem_cons.mp member with rfl | behind
      · exact le_rfl
      · exact (weighting.along consistent corridor.linked id behind).2 cyclic

end Corridor

namespace Redirected

variable {place : VertexId} (redirected : graph.Redirected other ids head place)

include redirected

theorem weight_outside (live : graph.contains id = true) (outside : id ∉ ids) :
    other.weight id = graph.weight id := by
  rcases contains_iff.mp live with ⟨vertex, found⟩
  rcases redirected.outer outside found with ⟨after, afterFound, kind, -⟩
  rw [weight_eq afterFound, weight_eq found, kind]

theorem length_children (live : graph.contains id = true) (outside : id ∉ ids) :
    (other.children id).length = (graph.children id).length := by
  rcases contains_iff.mp live with ⟨vertex, found⟩
  rcases redirected.outer outside found with ⟨after, afterFound, -, leads⟩
  rw [children_eq afterFound, children_eq found, leads, List.length_map]

/-- Outside the corridor nothing has changed in weight. -/
theorem sum_weight_outside (share : VertexId → ℕ) :
    ∑ id ∈ graph.idSet \ ids.toFinset, share id * other.weight id =
      ∑ id ∈ graph.idSet \ ids.toFinset, share id * graph.weight id := by
  apply Finset.sum_congr rfl
  intro id member
  rw [Finset.mem_sdiff, mem_idSet, List.mem_toFinset] at member
  rw [redirected.weight_outside member.1 member.2]

theorem sum_surplus_outside_le
    (cyclic : ∀ {id}, graph.contains id = true → other.onCycle id = true →
      graph.onCycle id = true) :
    ∑ id ∈ graph.idSet \ ids.toFinset, other.surplus id ≤
      ∑ id ∈ graph.idSet \ ids.toFinset, graph.surplus id := by
  apply Finset.sum_le_sum
  intro id member
  rw [Finset.mem_sdiff, mem_idSet, List.mem_toFinset] at member
  exact surplus_le (cyclic member.1) (redirected.length_children member.1 member.2).le

theorem onCycle_outside (corridor : graph.Corridor ids head tail kinds)
    (consistent : graph.Consistent)
    (exits : ∀ {exit}, exit ∈ graph.children tail → exit ∉ ids → other.edges.Reaches place exit)
    (outside : id ∉ ids) (cyclic : graph.onCycle id = true) : other.onCycle id = true := by
  have still : other.onCycle (standIn ids place id) = true := by
    refine onCycle_rename (standIn ids place) ?_ ?_ cyclic
    · intro next edge
      rw [standIn_of_not_mem outside]
      exact ⟨_, redirected.edge_kept corridor consistent outside edge, .refl _⟩
    · intro source next edge
      exact redirected.reaches corridor consistent exits (.step edge (.refl next))
  rwa [standIn_of_not_mem outside] at still

end Redirected

/-- The vertex itself, or the tail of a corridor for a vertex that takes the place of the
corridor. -/
def former (graph : Graph) (tail id : VertexId) : VertexId :=
  if id.index < graph.slots.size then id else tail

theorem Corridor.moves_redirect (corridor : graph.Corridor ids head tail kinds)
    (consistent : graph.Consistent) {source next : VertexId} (edge : next ∈ graph.children source) :
    graph.edges.Moves source
      (graph.former tail (VertexId.redirect head ⟨graph.slots.size⟩ next)) := by
  unfold VertexId.redirect
  split_ifs with isHead
  · refine ⟨head, isHead ▸ edge, ?_⟩
    simpa [former] using corridor.reaches_tail
  · rw [former, if_pos (index_lt_of_live (consistent.child_live edge))]
    exact ⟨next, edge, .refl next⟩

/-- The shares once a corridor has been replaced: the new vertices all have the same. -/
def renewed (graph : Graph) (share : VertexId → ℕ) (least : ℕ) (id : VertexId) : ℕ :=
  if id.index < graph.slots.size then share id else least

@[simp]
theorem renewed_new (offset : ℕ) :
    graph.renewed share least ⟨graph.slots.size + offset⟩ = least := by
  simp [renewed]

theorem renewed_of_live (live : graph.contains id = true) :
    graph.renewed share least id = share id :=
  if_pos (index_lt_of_live live)

namespace Substituted

variable {nodes : List Node} (substituted : graph.Substituted other ids head tail nodes)

include substituted

theorem sum_idSet (value : VertexId → ℕ) :
    ∑ id ∈ other.idSet, value id =
      ∑ id ∈ graph.idSet \ ids.toFinset, value id +
        ∑ offset ∈ Finset.range nodes.length, value ⟨graph.slots.size + offset⟩ := by
  have old : other.idSet.filter (·.index < graph.slots.size) = graph.idSet \ ids.toFinset := by
    ext id
    simp only [Finset.mem_filter, Finset.mem_sdiff, mem_idSet, List.mem_toFinset]
    constructor
    · rintro ⟨live, old⟩
      rw [contains, substituted.old old] at live
      split_ifs at live with idIn
      · simp at live
      · exact ⟨by simpa [contains] using live, idIn⟩
    · rintro ⟨live, outside⟩
      exact ⟨substituted.redirected.live outside live, index_lt_of_live live⟩
  rw [substituted.path.sum_idSet, old]

variable (corridor : graph.Corridor ids head tail kinds) (consistent : graph.Consistent)

include corridor consistent

/-- The start of the new path lies on a cycle if the corridor does. -/
theorem onCycle_start (cyclic : graph.onCycle tail = true) :
    other.onCycle ⟨graph.slots.size⟩ = true := by
  have nonempty := substituted.nonempty
  have toLast := substituted.path.reaches (show nodes.length - 1 < nodes.length by omega)
  have still : other.onCycle (standIn ids ⟨graph.slots.size⟩ tail) = true := by
    refine onCycle_rename (standIn ids ⟨graph.slots.size⟩) ?_ ?_ cyclic
    · intro next edge
      rw [standIn_of_mem corridor.tail_mem]
      refine toLast.moves ⟨_, ?_, .refl _⟩
      change _ ∈ other.children _
      rw [substituted.path.children (by omega), if_pos (by omega), List.mem_map]
      exact ⟨next, edge,
        corridor.redirect_eq (corridor.eq_head_of_edge consistent edge (.inr rfl)) _⟩
    · intro source next edge
      exact substituted.redirected.reaches corridor consistent (substituted.reaches_exit corridor)
        (.step edge (.refl next))
  rwa [standIn_of_mem corridor.tail_mem] at still

/-- No vertex outside the corridor is asked for more than before. -/
theorem inflow_outside_le (otherConsistent : other.Consistent)
    (bound : ∀ id ∈ ids, least ≤ share id) (old : id.index < graph.slots.size)
    (outside : id ∉ ids) : other.inflow (graph.renewed share least) id ≤ graph.inflow share id := by
  rw [inflow_eq consistent, inflow_eq otherConsistent, substituted.parents_old old, if_neg outside,
    List.map_map]
  apply List.sum_le_sum
  intro source member
  rw [Function.comp_apply, VertexId.redirect]
  split_ifs with isTail
  · rw [renewed_new]
    exact isTail ▸ bound tail corridor.tail_mem
  · rw [renewed_of_live (consistent.parent_live member)]

theorem inflow_start_le (otherConsistent : other.Consistent) (weighting : graph.Weighting share)
    (acyclic : other.onCycle ⟨graph.slots.size⟩ = false) :
    graph.onCycle head = false ∧
      other.inflow (graph.renewed share least) ⟨graph.slots.size⟩ ≤ graph.inflow share head := by
  have headAcyclic : graph.onCycle head = false := by
    rw [← corridor.onCycle_tail consistent weighting]
    exact acyclic_of_cyclic_kept (substituted.onCycle_start corridor consistent) acyclic
  have noLoop : (graph.children tail).count head = 0 := by
    rw [List.count_eq_zero]
    intro edge
    have cyclic := onCycle_iff.mpr (corridor.reaches_tail.moves ⟨head, edge, .refl head⟩)
    simp [headAcyclic] at cyclic
  have parents := substituted.path.parents substituted.nonempty
  rw [Nat.add_zero, if_pos rfl, noLoop, List.replicate_zero, List.append_nil] at parents
  have same : (graph.parents head).map (graph.renewed share least) =
      (graph.parents head).map share := by
    apply List.map_congr_left
    intro source member
    exact renewed_of_live (consistent.parent_live member)
  refine ⟨headAcyclic, ?_⟩
  rw [inflow_eq consistent, inflow_eq otherConsistent, parents, ← same]
  exact (List.filter_sublist.map _).sum_le_sum fun _ _ => Nat.zero_le _

theorem weighting_renewed (otherConsistent : other.Consistent) (weighting : graph.Weighting share)
    (positive : 0 < least) (bound : ∀ id ∈ ids, least ≤ share id)
    (enough : graph.onCycle head = false → graph.inflow share head ≤ least) :
    other.Weighting (graph.renewed share least) := by
  refine ⟨?_, fun {id} acyclic => ?_⟩
  · intro id
    unfold renewed
    split_ifs
    · exact weighting.pos id
    · exact positive
  rcases Nat.lt_or_ge id.index graph.slots.size with old | fresh
  · by_cases idIn : id ∈ ids
    · simp [inflow_eq otherConsistent, substituted.parents_old old, idIn]
    · have stays :=
        substituted.redirected.onCycle_outside corridor consistent
          (substituted.reaches_exit corridor) idIn
      have flow := weighting.flow (acyclic_of_cyclic_kept stays acyclic)
      rw [renewed, if_pos old]
      exact (substituted.inflow_outside_le corridor consistent otherConsistent bound old idIn).trans
        flow
  · rcases id with ⟨index⟩
    rcases Nat.exists_eq_add_of_le fresh with ⟨offset, (rfl : index = graph.slots.size + offset)⟩
    rw [renewed_new]
    cases offset with
    | zero =>
        rcases substituted.inflow_start_le corridor consistent otherConsistent weighting
          acyclic with ⟨headAcyclic, enters⟩
        exact enters.trans (enough headAcyclic)
    | succ offset =>
        rw [inflow_eq otherConsistent]
        rcases Nat.lt_or_ge (offset + 1) nodes.length with inside | beyond
        · simp [substituted.path.parents inside]
        · simp [(substituted.path.neighbours_beyond beyond).2]

omit consistent in
theorem load_renewed (bound : ∀ id ∈ ids, least ≤ share id) :
    other.load (graph.renewed share least) + least * totalWeight kinds ≤
      graph.load share + least * totalWeight (nodes.map Node.kind) := by
  have kept : ∑ id ∈ graph.idSet \ ids.toFinset, graph.renewed share least id * graph.weight id =
      ∑ id ∈ graph.idSet \ ids.toFinset, share id * graph.weight id := by
    apply Finset.sum_congr rfl
    intro id member
    rw [renewed_of_live (mem_idSet.mp (Finset.mem_sdiff.mp member).1)]
  have removed := corridor.mul_totalWeight_le bound
  rw [load, substituted.sum_idSet, substituted.redirected.sum_weight_outside, kept, load,
    corridor.sum_idSet, ← substituted.path.sum_weight, Finset.mul_sum]
  simp only [renewed_new]
  omega

/-- An edge of the new graph is a path of the old one, except along the new vertices. -/
theorem moves_former {source next : VertexId} (edge : next ∈ other.children source)
    (outer : source.index < graph.slots.size ∨ source.index + 1 = graph.slots.size + nodes.length) :
    graph.edges.Moves (graph.former tail source) (graph.former tail next) := by
  rcases outer with old | isLast
  · rw [substituted.children_old old] at edge
    split_ifs at edge with sourceIn
    · simp at edge
    · rcases List.mem_map.mp edge with ⟨target, leads, rfl⟩
      rw [former, if_pos old]
      exact corridor.moves_redirect consistent leads
  · have fresh : graph.slots.size ≤ source.index := by
      have nonempty := substituted.nonempty
      omega
    rcases source with ⟨index⟩
    rcases Nat.exists_eq_add_of_le fresh with ⟨offset, (rfl : index = graph.slots.size + offset)⟩
    simp only at isLast
    rw [substituted.path.children (by omega), if_pos (by omega)] at edge
    rcases List.mem_map.mp edge with ⟨target, leads, rfl⟩
    have moves := corridor.moves_redirect consistent leads
    simpa [former] using moves

theorem reaches_former {source next : VertexId} (edge : next ∈ other.children source) :
    graph.edges.Reaches (graph.former tail source) (graph.former tail next) := by
  by_cases outer : source.index < graph.slots.size ∨
    source.index + 1 = graph.slots.size + nodes.length
  · exact (substituted.moves_former corridor consistent edge outer).reaches
  · push Not at outer
    have inside := substituted.path.lt_of_live (live_of_mem_children edge)
    rcases source with ⟨index⟩
    rcases Nat.exists_eq_add_of_le outer.1 with ⟨offset, (rfl : index = graph.slots.size + offset)⟩
    simp only at outer inside
    rw [substituted.path.children (by omega), if_neg (by omega), List.mem_singleton] at edge
    rw [edge, former, if_neg (by simp), former, if_neg (by simp; omega)]
    exact .refl tail

theorem onCycle_former
    (outer : id.index < graph.slots.size ∨ id.index + 1 = graph.slots.size + nodes.length)
    (cyclic : other.onCycle id = true) : graph.onCycle (graph.former tail id) = true := by
  refine onCycle_rename (graph.former tail) ?_ ?_ cyclic
  · intro next edge
    exact substituted.moves_former corridor consistent edge outer
  · intro source next edge
    exact substituted.reaches_former corridor consistent edge

theorem loops_le : other.loops ≤ graph.loops := by
  have nonempty := substituted.nonempty
  have path : ∑ offset ∈ Finset.range nodes.length, other.surplus ⟨graph.slots.size + offset⟩ ≤
      graph.surplus tail := by
    rw [Finset.sum_eq_single (nodes.length - 1)]
    · apply surplus_le
      · intro cyclic
        have again :=
          substituted.onCycle_former corridor consistent (.inr (by simp only; omega)) cyclic
        simpa [former] using again
      · rw [substituted.path.children (by omega), if_pos (by omega), List.length_map]
    · intro offset member notLast
      rw [Finset.mem_range] at member
      simp [surplus, substituted.path.children member, show offset + 1 ≠ nodes.length by omega]
    · simp [nonempty]
  rw [loops, substituted.sum_idSet, loops, corridor.sum_idSet]
  apply Nat.add_le_add
  · apply substituted.redirected.sum_surplus_outside_le
    intro id live cyclic
    have old := index_lt_of_live live
    have again := substituted.onCycle_former corridor consistent (.inl old) cyclic
    rwa [former, if_pos old] at again
  · exact path.trans (corridor.le_sum_ids graph.surplus)

omit consistent in
theorem settled (cheaper : Cheaper (nodes.map Node.kind) kinds) (settled : graph.Settled) :
    other.Settled := by
  have beyond : ∀ access ∈ kinds.flatMap Kind.memoryAccesses, access.Beyond graph.grid := by
    intro access member
    rcases List.mem_flatMap.mp member with ⟨kind, kindMember, accesses⟩
    rcases corridor.stretch.exists_vertex kindMember with ⟨source, original, originalFound, rfl⟩
    exact settled source original originalFound access accesses
  intro id vertex found access member
  rw [substituted.grid]
  rcases Nat.lt_or_ge id.index graph.slots.size with old | fresh
  · rw [substituted.old old] at found
    split_ifs at found
    rcases Option.map_eq_some_iff.mp found with ⟨before, foundBefore, rfl⟩
    exact settled id before foundBefore access member
  · rcases substituted.path.exists_node fresh found with ⟨node, listed, rfl, -⟩
    apply beyond
    apply cheaper.accesses fun access member => (beyond access member).isConstant
    exact List.mem_flatMap.mpr ⟨vertex.kind, List.mem_map_of_mem listed, member⟩

/-- A replacement that costs less than the corridor lowers the load. -/
theorem lightens (otherConsistent : other.Consistent)
    (cheaper : Cheaper (nodes.map Node.kind) kinds) : Lightens 1 graph other := by
  refine ⟨substituted.settled corridor cheaper, substituted.loops_le corridor consistent,
    fun {share} weighting => ?_⟩
  rcases corridor.exists_least consistent weighting with ⟨least, positive, bound, enough⟩
  refine ⟨_, substituted.weighting_renewed corridor consistent otherConsistent weighting positive
    bound enough, ?_⟩
  have changes := substituted.load_renewed corridor bound
  have less := Nat.mul_lt_mul_of_pos_left cheaper.weight positive
  omega

end Substituted

namespace Bypassed

variable {exit : VertexId} (bypassed : graph.Bypassed other ids head tail exit)
  (corridor : graph.Corridor ids head tail kinds) (consistent : graph.Consistent)

include bypassed

theorem idSet_eq : other.idSet = graph.idSet \ ids.toFinset := by
  ext id
  simp only [Finset.mem_sdiff, mem_idSet, List.mem_toFinset, contains, bypassed.vertex id]
  by_cases idIn : id ∈ ids <;> simp [idIn]

theorem reaches_exit {target : VertexId} (leaves : target ∈ graph.children tail)
    (_ : target ∉ ids) : other.edges.Reaches exit target := by
  rw [bypassed.leads, List.mem_singleton] at leaves
  rw [leaves]
  exact .refl exit

include corridor

/-- What is left of the vertices that lead to the corridor now leads to its exit. -/
theorem inflow_outside (outside : id ∉ ids) :
    other.inflow share id =
      ∑ source ∈ graph.idSet \ ids.toFinset, (graph.children source).count id * share source +
        if id = exit then
          ∑ source ∈ graph.idSet \ ids.toFinset, (graph.children source).count head * share source
        else 0 := by
  have headApart : head ≠ exit := fun same => bypassed.outside (same ▸ corridor.head_mem)
  have notHead : id ≠ head := fun same => outside (same ▸ corridor.head_mem)
  have perSource (source : VertexId) (sourceOut : source ∉ ids) :
      (other.children source).count id * share source =
        (graph.children source).count id * share source +
          if id = exit then (graph.children source).count head * share source else 0 := by
    rw [bypassed.children, if_neg sourceOut, count_map_redirect headApart, if_neg notHead]
    split_ifs
    · exact Nat.add_mul _ _ _
    · rfl
  rw [inflow, bypassed.idSet_eq]
  rw [Finset.sum_congr rfl fun source member =>
    perSource source (by simpa using (Finset.mem_sdiff.mp member).2)]
  rw [Finset.sum_add_distrib]
  split_ifs
  · rfl
  · simp

theorem onCycle_before (cyclic : other.onCycle id = true) : graph.onCycle id = true := by
  have moves {source next : VertexId} (edge : next ∈ other.children source) :
      graph.edges.Moves source next := by
    rw [bypassed.children] at edge
    split_ifs at edge with sourceIn
    · simp at edge
    · rcases List.mem_map.mp edge with ⟨target, leads, rfl⟩
      unfold VertexId.redirect
      split_ifs with isHead
      · have ends : exit ∈ graph.children tail := by simp [bypassed.leads]
        exact ⟨head, isHead ▸ leads, corridor.reaches_tail.tail ends⟩
      · exact ⟨target, leads, .refl target⟩
  exact onCycle_rename (fun id => id) moves (fun edge => (moves edge).reaches) cyclic

include consistent

/-- The exit takes what entered the corridor in the place of what left it, which was no less. -/
theorem weighting (otherConsistent : other.Consistent) (weighting : graph.Weighting share) :
    other.Weighting share := by
  refine ⟨weighting.pos, fun {id} acyclic => ?_⟩
  by_cases idIn : id ∈ ids
  · simp [inflow_eq otherConsistent, bypassed.parents consistent, idIn]
  · have stays := bypassed.redirected.onCycle_outside corridor consistent bypassed.reaches_exit idIn
    have acyclicBefore := acyclic_of_cyclic_kept stays acyclic
    have flow := weighting.flow acyclicBefore
    rw [inflow, corridor.sum_idSet] at flow
    rw [bypassed.inflow_outside corridor idIn]
    split_ifs with isExit
    · subst isExit
      have headAcyclic : graph.onCycle head = false := by
        rw [← corridor.onCycle_tail consistent weighting]
        exact acyclic_of_cyclic_kept (onCycle_only_child bypassed.leads) acyclicBefore
      rcases corridor.exists_least consistent weighting with ⟨least, -, bound, enough⟩
      have entered := enough headAcyclic
      rw [inflow, corridor.sum_idSet] at entered
      have left := corridor.le_sum_ids fun source => (graph.children source).count id * share source
      have least_le := bound tail corridor.tail_mem
      simp only [bypassed.leads, List.count_singleton_self, Nat.one_mul] at left
      omega
    · omega

/-- Leaving out a corridor lowers the load. -/
theorem lightens (otherConsistent : other.Consistent) (cheaper : Cheaper [] kinds) :
    Lightens 1 graph other := by
  refine ⟨?_, ?_, fun {share} weighting => ?_⟩
  · intro settled id vertex found access member
    rcases bypassed.vertex_before found with ⟨-, before, foundBefore, kind, -⟩
    rw [bypassed.grid]
    exact settled id before foundBefore access (kind ▸ member)
  · rw [loops, bypassed.idSet_eq, loops, corridor.sum_idSet]
    apply Nat.le_add_right_of_le
    exact bypassed.redirected.sum_surplus_outside_le fun _ => bypassed.onCycle_before corridor
  · refine ⟨share, bypassed.weighting corridor consistent otherConsistent weighting, ?_⟩
    have removed := corridor.mul_totalWeight_le fun id _ => weighting.pos id
    have heavy := cheaper.weight
    rw [totalWeight_nil] at heavy
    rw [load, bypassed.idSet_eq, bypassed.redirected.sum_weight_outside, load, corridor.sum_idSet]
    omega

end Bypassed

theorem Replaced.lightens {replacement : Replacement}
    (replaced : graph.Replaced other ids head tail replacement) (valid : graph.Valid)
    (corridor : graph.Corridor ids head tail kinds)
    (cheaper : Cheaper (replacement.toList.map Node.kind) kinds) : Lightens 1 graph other := by
  have consistent := valid.consistent
  have otherConsistent := (valid_iff.mp (replaced.rewritten valid corridor).valid).1
  cases replaced with
  | bypass bypassed => exact bypassed.lightens corridor consistent otherConsistent cheaper
  | nodes _ substituted => exact substituted.lightens corridor consistent otherConsistent cheaper

end Graph

namespace Rule

variable {rule : Rule} {graph other : Graph}

/-- Whenever a rule of the optimizer fires, the rank falls. -/
theorem Fires.rank_lt {chain : Chain} {nodes : List Node} (reliable : rule.Reliable)
    (valid : graph.Valid) (fires : rule.Fires graph other chain nodes) :
    other.rank < graph.rank := by
  have consistent := valid.consistent
  rcases fires.exists_cheaper reliable with
    ⟨replacement, ⟨between, ids, isolated, replaced⟩, cheaper⟩
  have copied :=
    isolated.unshared.lightens fires.inside fires.acyclic consistent isolated.valid.consistent
  have lightens := copied.trans (replaced.lightens isolated.valid isolated.corridor cheaper)
  exact Graph.rank_lt_of_lightens lightens consistent

/-- A scan leaves the graph alone, or it lowers the rank. -/
theorem scanFrom_rank (reliable : rule.Reliable) (valid : graph.Valid) (heads : List VertexId) :
    ((rule.scanFrom graph heads).applied = 0 ∧ (rule.scanFrom graph heads).graph = graph) ∨
      ((rule.scanFrom graph heads).applied ≠ 0 ∧
        (rule.scanFrom graph heads).graph.rank < graph.rank) := by
  fun_induction scanFrom rule graph heads with
  | case1 graph => exact .inl ⟨rfl, rfl⟩
  | case2 graph head heads error failed => exact .inl ⟨rfl, rfl⟩
  | case3 graph head heads passed ih => exact ih valid
  | case4 graph head heads changed applied scan ih =>
      rcases fires_of_applyAt? valid applied with ⟨chain, nodes, fires⟩
      have lower := fires.rank_lt reliable valid
      refine .inr ⟨Nat.succ_ne_zero _, ?_⟩
      rcases ih fires.rewritten.valid with ⟨-, same⟩ | ⟨-, further⟩
      · exact (congrArg Graph.rank same).trans_lt lower
      · exact further.trans lower

theorem apply_rank (reliable : rule.Reliable) (valid : graph.Valid) {applied : ℕ}
    (result : rule.apply graph = .ok (other, applied)) :
    (applied = 0 ∧ other = graph) ∨ (applied ≠ 0 ∧ other.rank < graph.rank) := by
  rcases apply_eq_ok_iff.mp result with ⟨-, rfl, rfl⟩
  exact scanFrom_rank reliable valid graph.walk

end Rule

end StackFlow
