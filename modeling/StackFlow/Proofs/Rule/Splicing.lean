import Mathlib
import StackFlow.Proofs.Rule.Extraction
import StackFlow.Proofs.Rule.Soundness

/-!
# Replacing a corridor

The vertices of a corridor are replaced by others, or the corridor is left out and
its exit takes its place. This can always be done if the others can take over the
exits, and the graph stays valid. If the others do the same as the corridor, the
program behaves as before.
-/

namespace StackFlow

theorem count_map_redirect {old new : VertexId} (apart : old ≠ new) (ids : List VertexId)
    (id : VertexId) :
    (ids.map (VertexId.redirect old new)).count id =
      (if id = old then 0 else ids.count id) + if id = new then ids.count old else 0 := by
  induction ids with
  | nil => simp
  | cons first ids ih =>
      simp only [List.map_cons, List.count_cons, ih, beq_iff_eq, VertexId.redirect]
      grind

/-- The replacement can take over the exits of the chain. -/
def Replacement.Fits (replacement : Replacement) (chain : Chain) : Prop :=
  match replacement with
  | .bypass exit => chain.exits = [exit] ∧ exit ≠ chain.head.id
  | .nodes first rest => Rule.spliceFault? (first :: rest) chain.exits.length = none

theorem Rule.spliceFault?_eq_none_iff {nodes : List Node} {exits : List VertexId} :
    spliceFault? nodes exits.length = none ↔
      (∀ node ∈ nodes.dropLast, node.kind.exit = .next) ∧
        ∀ last, nodes.getLast? = some last → last.kind.Fits exits := by
  unfold spliceFault?
  cases ends : nodes.getLast? with
  | none =>
      rw [List.getLast?_eq_none_iff] at ends
      simp [ends]
  | some last =>
      have branches :
          nodes.dropLast.any (·.kind.isSplit) = true ↔
            ¬∀ node ∈ nodes.dropLast, node.kind.exit = .next := by
        simp [← Kind.isSplit_eq_false_iff]
      dsimp only
      by_cases straight : ∀ node ∈ nodes.dropLast, node.kind.exit = .next
      · rw [if_neg fun any => branches.mp any straight]
        cases arity : last.kind.arity? with
        | none => simpa [Kind.Fits, arity] using fun _ => straight
        | some count =>
            simp only [Option.some.injEq, forall_eq', Kind.Fits, arity]
            simpa [eq_comm] using fun _ => straight
      · rw [if_pos (branches.mpr straight)]
        simp [straight]

namespace Graph

variable {graph other : Graph} {ids : List VertexId} {head tail : VertexId} {kinds : List Kind}

/-- The second graph is a valid one that has vertices of the kinds `others` in the place of vertices
of the given kinds. -/
structure Rewritten (graph other : Graph) (others kinds : List Kind) : Prop where
  valid : other.Valid
  alike : Imitates others kinds → graph.BehavesLike other
  declared : others.flatMap Kind.vars ⊆ kinds.flatMap Kind.vars → graph.Declared → other.Declared

/-- The second graph is the first with a path of new vertices in the place of a corridor. -/
structure Substituted (graph other : Graph) (ids : List VertexId) (head tail : VertexId)
    (nodes : List Node) : Prop where
  root : other.root = graph.root.map (VertexId.redirect head ⟨graph.slots.size⟩)
  grid : other.grid = graph.grid
  vars : other.vars = graph.vars
  nonempty : 0 < nodes.length
  old : ∀ {id : VertexId}, id.index < graph.slots.size → other.vertex? id =
    if id ∈ ids then none
    else (graph.vertex? id).map fun vertex =>
      { vertex with
        children := vertex.children.map (VertexId.redirect head ⟨graph.slots.size⟩)
        parents :=
          vertex.parents.map (VertexId.redirect tail ⟨graph.slots.size + (nodes.length - 1)⟩) }
  path : other.HasPath graph.slots.size
    ((graph.parents head).filter (· ≠ tail) ++
      List.replicate ((graph.children tail).count head) ⟨graph.slots.size + (nodes.length - 1)⟩)
    ((graph.children tail).map (VertexId.redirect head ⟨graph.slots.size⟩)) nodes

namespace Substituted

variable {nodes : List Node} (substituted : graph.Substituted other ids head tail nodes)
  (corridor : graph.Corridor ids head tail kinds) (consistent : graph.Consistent) {id : VertexId}

include substituted

theorem children_old (old : id.index < graph.slots.size) :
    other.children id =
      if id ∈ ids then []
      else (graph.children id).map (VertexId.redirect head ⟨graph.slots.size⟩) := by
  unfold children
  rw [substituted.old old]
  split_ifs
  · rfl
  · cases graph.vertex? id <;> rfl

theorem parents_old (old : id.index < graph.slots.size) :
    other.parents id =
      if id ∈ ids then []
      else (graph.parents id).map
        (VertexId.redirect tail ⟨graph.slots.size + (nodes.length - 1)⟩) := by
  unfold parents
  rw [substituted.old old]
  split_ifs
  · rfl
  · cases graph.vertex? id <;> rfl

theorem redirected : graph.Redirected other ids head ⟨graph.slots.size⟩ where
  root := substituted.root
  grid := substituted.grid
  vars := substituted.vars
  outer := by
    intro id vertex outside found
    have view := substituted.old (index_lt_of_live (contains_iff.mpr ⟨vertex, found⟩))
    rw [if_neg outside, found, Option.map_some] at view
    exact ⟨_, view, rfl, rfl⟩

include corridor

theorem count_redirect_head (targets : List VertexId) (target : VertexId) :
    (targets.map (VertexId.redirect head ⟨graph.slots.size⟩)).count target =
      (if target = head then 0 else targets.count target) +
        if target.index = graph.slots.size then targets.count head else 0 := by
  have old := corridor.head_old
  rw [count_map_redirect (by rintro rfl; simp at old)]
  cases target
  simp

theorem count_redirect_tail (sources : List VertexId) (source : VertexId) :
    (sources.map (VertexId.redirect tail ⟨graph.slots.size + (nodes.length - 1)⟩)).count source =
      (if source = tail then 0 else sources.count source) +
        if source.index + 1 = graph.slots.size + nodes.length then sources.count tail else 0 := by
  have old := corridor.tail_old
  have nonempty := substituted.nonempty
  rw [count_map_redirect (by rintro rfl; simp at old)]
  congr 2
  cases source
  simp only [VertexId.mk.injEq, eq_iff_iff]
  omega

/-- The new path leads wherever the corridor led. -/
theorem reaches_exit {exit : VertexId} (leaves : exit ∈ graph.children tail)
    (outside : exit ∉ ids) : other.edges.Reaches ⟨graph.slots.size⟩ exit := by
  have nonempty := substituted.nonempty
  have toLast := substituted.path.reaches (show nodes.length - 1 < nodes.length by omega)
  have notHead : exit ≠ head := fun same => outside (same ▸ corridor.head_mem)
  apply toLast.tail
  change _ ∈ other.children _
  rw [substituted.path.children (by omega), if_pos (by omega), List.mem_map]
  exact ⟨exit, leaves, by simp [VertexId.redirect, notHead]⟩

theorem declared (vars : (nodes.map Node.kind).flatMap Kind.vars ⊆ kinds.flatMap Kind.vars)
    (declared : graph.Declared) : other.Declared := by
  rw [declared_iff] at declared ⊢
  intro id vertex found var occurs
  rw [substituted.vars]
  rcases Nat.lt_or_ge id.index graph.slots.size with old | fresh
  · rw [substituted.old old] at found
    split_ifs at found
    rcases Option.map_eq_some_iff.mp found with ⟨before, foundBefore, rfl⟩
    exact declared id before foundBefore var occurs
  · rcases substituted.path.exists_node fresh found with ⟨node, member, rfl, -⟩
    have among : var ∈ kinds.flatMap Kind.vars :=
      vars (List.mem_flatMap.mpr ⟨vertex.kind, List.mem_map_of_mem member, occurs⟩)
    rcases List.mem_flatMap.mp among with ⟨kind, kindMember, kindOccurs⟩
    rcases corridor.stretch.exists_vertex kindMember with ⟨source, original, originalFound, rfl⟩
    exact declared source original originalFound var kindOccurs

include consistent

theorem mirrored_old {source target : VertexId} (sourceOld : source.index < graph.slots.size)
    (targetOld : target.index < graph.slots.size) :
    (other.children source).count target = (other.parents target).count source := by
  have notStart : target.index ≠ graph.slots.size := by omega
  have notEnd : source.index + 1 ≠ graph.slots.size + nodes.length := by
    have nonempty := substituted.nonempty
    omega
  rw [substituted.children_old sourceOld, substituted.parents_old targetOld]
  by_cases sourceIn : source ∈ ids <;> by_cases targetIn : target ∈ ids
  · simp [sourceIn, targetIn]
  · rw [if_pos sourceIn, if_neg targetIn, substituted.count_redirect_tail corridor, if_neg notEnd]
    split_ifs with isTail
    · rfl
    · rw [← consistent.mirrored, corridor.count_children_inner sourceIn isTail (.inl targetIn)]
      rfl
  · rw [if_neg sourceIn, if_pos targetIn, substituted.count_redirect_head corridor, if_neg notStart]
    split_ifs with isHead
    · rfl
    · rw [consistent.mirrored, corridor.count_parents_inner targetIn isHead (.inl sourceIn)]
      rfl
  · have notHead : target ≠ head := fun same => targetIn (same ▸ corridor.head_mem)
    have notTail : source ≠ tail := fun same => sourceIn (same ▸ corridor.tail_mem)
    rw [if_neg sourceIn, if_neg targetIn, substituted.count_redirect_head corridor,
      substituted.count_redirect_tail corridor, if_neg notHead, if_neg notTail, if_neg notStart,
      if_neg notEnd, consistent.mirrored]

/-- The new path is entered by the edges that entered the corridor. -/
theorem count_incoming (source : VertexId) :
    ((graph.parents head).filter (· ≠ tail) ++
      List.replicate ((graph.children tail).count head)
        (⟨graph.slots.size + (nodes.length - 1)⟩ : VertexId)).count source =
      (if source ∈ ids then 0 else (graph.children source).count head) +
        if source.index + 1 = graph.slots.size + nodes.length then
          (graph.children tail).count head
        else 0 := by
  have nonempty := substituted.nonempty
  rw [List.count_append, List.count_replicate]
  congr 1
  · by_cases isTail : source = tail
    · subst isTail
      rw [if_pos corridor.tail_mem, List.count_eq_zero]
      simp
    · rw [List.count_filter (by simpa using isTail), ← consistent.mirrored]
      split_ifs with sourceIn
      · exact corridor.count_children_inner sourceIn isTail (.inr rfl)
      · rfl
  · cases source
    simp only [beq_iff_eq, VertexId.mk.injEq]
    congr 1
    simp only [eq_iff_iff]
    omega

/-- The new path is left by the edges that left the corridor. -/
theorem count_outgoing (target : VertexId) :
    ((graph.children tail).map (VertexId.redirect head ⟨graph.slots.size⟩)).count target =
      (if target ∈ ids then 0 else (graph.parents target).count tail) +
        if target.index = graph.slots.size then (graph.children tail).count head else 0 := by
  rw [substituted.count_redirect_head corridor, consistent.mirrored]
  congr 1
  by_cases isHead : target = head
  · simp [isHead, corridor.head_mem]
  · rw [if_neg isHead]
    split_ifs with targetIn
    · exact corridor.count_parents_inner targetIn isHead (.inr rfl)
    · rfl

theorem keeps_consistent (straight : ∀ node ∈ nodes.dropLast, node.kind.exit = .next)
    (fits : ∀ last, nodes.getLast? = some last → last.kind.Fits (graph.children tail)) :
    other.Consistent := by
  have headOld := corridor.head_old
  have tailOld := corridor.tail_old
  have nonempty := substituted.nonempty
  refine ⟨substituted.path.mirrored nonempty ?_ ?_ ?_ ?_, ?_⟩
  · intro source target sourceOld targetOld
    exact substituted.mirrored_old corridor consistent sourceOld targetOld
  · intro source target sourceOld targetFresh
    have notHead : target ≠ head := by
      rintro rfl
      omega
    have notEnd : source.index + 1 ≠ graph.slots.size + nodes.length := by omega
    rw [substituted.children_old sourceOld, substituted.count_incoming corridor consistent,
      if_neg notEnd]
    by_cases sourceIn : source ∈ ids
    · simp [sourceIn]
    · simp only [if_neg sourceIn, substituted.count_redirect_head corridor, if_neg notHead,
        consistent.count_children_of_size_le targetFresh, Nat.zero_add, Nat.add_zero]
  · intro source target sourceFresh targetOld
    have notTail : source ≠ tail := by
      rintro rfl
      omega
    have notStart : target.index ≠ graph.slots.size := by omega
    rw [substituted.parents_old targetOld, substituted.count_outgoing corridor consistent,
      if_neg notStart]
    by_cases targetIn : target ∈ ids
    · simp [targetIn]
    · simp only [if_neg targetIn, substituted.count_redirect_tail corridor, if_neg notTail,
        consistent.count_parents_of_size_le sourceFresh, Nat.zero_add, Nat.add_zero]
  · intro source target sourceFresh targetFresh
    have sourceOut : graph.children source = [] :=
      children_eq_nil (by simpa using mt index_lt_of_live (Nat.not_lt.mpr sourceFresh))
    have targetOut : graph.parents target = [] := by
      simp [parents, vertex?_eq_none_of_size_le targetFresh]
    rw [substituted.count_outgoing corridor consistent,
      substituted.count_incoming corridor consistent, sourceOut, targetOut]
    split_ifs <;> simp
  · intro id vertex found
    rcases Nat.lt_or_ge id.index graph.slots.size with old | fresh
    · rw [substituted.old old] at found
      split_ifs at found
      rcases Option.map_eq_some_iff.mp found with ⟨before, foundBefore, rfl⟩
      simpa [Kind.Fits] using consistent.fits foundBefore
    · rcases substituted.path.exists_node fresh found with
        ⟨node, -, rfl, ⟨inner, single⟩ | ⟨last, leaves⟩⟩
      · have plain : vertex.kind.arity? = none := by
          simp [Kind.arity?, straight _ inner, Exit.arity?]
        simp [Kind.Fits, plain, single]
      · rw [leaves]
        simpa [Kind.Fits] using fits _ last

theorem rooted (rooted : graph.Rooted) : other.Rooted := by
  rcases rooted with ⟨root, start, live, reached⟩
  have redirected := substituted.redirected
  have paths {id : VertexId} (idLive : graph.contains id = true) :
      other.edges.Reaches (standIn ids ⟨graph.slots.size⟩ root)
        (standIn ids ⟨graph.slots.size⟩ id) :=
    redirected.reaches corridor consistent (substituted.reaches_exit corridor) (reached id idLive)
  have headLive : other.contains ⟨graph.slots.size⟩ = true :=
    substituted.path.live substituted.nonempty
  refine ⟨_, redirected.start corridor start, redirected.live_standIn headLive live, ?_⟩
  intro id idLive
  rcases Nat.lt_or_ge id.index graph.slots.size with old | fresh
  · have kept : id ∉ ids ∧ graph.contains id = true := by
      simp only [contains, substituted.old old] at idLive
      split_ifs at idLive with idIn
      · simp at idLive
      · exact ⟨idIn, by simpa [contains] using idLive⟩
    have path := paths kept.2
    rwa [standIn_of_not_mem kept.1] at path
  · have inside := substituted.path.lt_of_live idLive
    rcases id with ⟨index⟩
    rcases Nat.exists_eq_add_of_le fresh with ⟨offset, (rfl : index = graph.slots.size + offset)⟩
    have toHead := paths (corridor.live corridor.head_mem)
    rw [standIn_of_mem corridor.head_mem] at toHead
    exact toHead.trans (substituted.path.reaches (by simpa using inside))

theorem behavesLike (rooted : graph.Rooted)
    (straight : ∀ node ∈ nodes.dropLast, node.kind.exit = .next)
    (imitates : Imitates (nodes.map Node.kind) kinds) : graph.BehavesLike other := by
  refine substituted.redirected.behavesLike corridor consistent rooted
    fun {state twinState} similar => ?_
  have stretch := substituted.path.stretch straight substituted.nonempty
  rw [Nat.add_zero, List.drop_zero] at stretch
  refine aligned_of_rename _ corridor.stretch stretch ?_ ?_
    (corridor.stretch.leaves consistent state) ?_
  · rw [imitates.shown, similar.shown]
  · intro drawn
    rw [imitates.edge, similar.edge]
  · intro next member
    exact redirecting_of_edge corridor consistent member (.inr rfl)
      ((similar.through kinds).trans (imitates.through twinState).symm)

end Substituted

/-- A corridor can always be replaced: its neighbours are vertices outside of it. -/
theorem exists_substituted (consistent : graph.Consistent)
    (corridor : graph.Corridor ids head tail kinds) {nodes : List Node}
    (nonempty : 0 < nodes.length) :
    ∃ other, graph.substituteChain ids head tail nodes = .ok other ∧
      graph.Substituted other ids head tail nodes := by
  have kept (vertices : List Vertex) :
      requireAll (fun id => (graph.append vertices).contains id && id ∉ ids)
        ((graph.parents head).filter (· ≠ tail) ++ (graph.children tail).filter (· ≠ head)) =
      .ok () := by
    rw [requireAll_eq_ok_iff]
    intro id member
    have outer : graph.contains id = true ∧ id ∉ ids := by
      simp only [List.mem_append, List.mem_filter, decide_eq_true_eq] at member
      rcases member with ⟨edge, notTail⟩ | ⟨edge, notHead⟩
      · exact ⟨consistent.parent_live edge, corridor.not_mem_of_parent consistent edge notTail⟩
      · exact ⟨consistent.child_live edge, corridor.not_mem_of_exit consistent edge notHead⟩
    have live : (graph.append vertices).contains id = true := by
      rw [contains, vertex?_append, if_pos (index_lt_of_live outer.1)]
      exact outer.1
    simp [live, outer.2]
  simp only [substituteChain, kept]
  refine ⟨_, rfl, rfl, rfl, rfl, nonempty, ?_, ?_⟩
  · intro id old
    rw [vertex?_setRoot, vertex?_mapVertices, vertex?_append, if_pos old]
    by_cases idIn : id ∈ ids
    · simp only [if_pos idIn]
      cases graph.vertex? id <;> rfl
    · simp only [if_neg idIn]
      cases found : graph.vertex? id with
      | none => rfl
      | some vertex =>
          have notTail : id ≠ tail := fun same => idIn (same ▸ corridor.tail_mem)
          rw [Option.bind_some, Option.map_some]
          congr 2
          · split_ifs with isOuter
            · rfl
            · refine (map_redirect_of_not_mem fun edge => isOuter ?_).symm
              rw [← children_eq found, consistent.mem_children_iff] at edge
              simpa [notTail] using edge
          · split_ifs with isExit
            · rfl
            · refine (map_redirect_of_not_mem fun edge => isExit ?_).symm
              rwa [← parents_eq found, ← consistent.mem_children_iff] at edge
  · intro offset
    have dead : graph.contains ⟨graph.slots.size + offset⟩ = false := by
      simpa using mt index_lt_of_live (Nat.not_lt.mpr (Nat.le_add_right graph.slots.size offset))
    have notIn : (⟨graph.slots.size + offset⟩ : VertexId) ∉ ids := fun member => by
      simp [corridor.live member] at dead
    have notParent : (⟨graph.slots.size + offset⟩ : VertexId) ∉ graph.parents head := by
      intro member
      simp [consistent.parent_live member] at dead
    have notExit : (⟨graph.slots.size + offset⟩ : VertexId) ∉ graph.children tail := by
      intro member
      simp [consistent.child_live member] at dead
    rw [vertex?_setRoot, vertex?_mapVertices, vertex?_append, if_neg (by simp)]
    simp only [Nat.add_sub_cancel_left, if_neg notIn, List.mem_filter, notParent, false_and,
      notExit, if_false]
    exact Option.bind_fun_some _

theorem Substituted.rewritten (valid : graph.Valid) (corridor : graph.Corridor ids head tail kinds)
    {nodes : List Node} (substituted : graph.Substituted other ids head tail nodes)
    (faultless : Rule.spliceFault? nodes (graph.children tail).length = none) :
    graph.Rewritten other (nodes.map Node.kind) kinds := by
  rcases valid_iff.mp valid with ⟨consistent, rooted⟩
  rcases Rule.spliceFault?_eq_none_iff.mp faultless with ⟨straight, fits⟩
  refine ⟨valid_iff.mpr ⟨?_, ?_⟩, ?_, ?_⟩
  · exact substituted.keeps_consistent corridor consistent straight fits
  · exact substituted.rooted corridor consistent rooted
  · exact substituted.behavesLike corridor consistent rooted straight
  · exact substituted.declared corridor

/-- The second graph is the first without a corridor, and what led to the corridor leads to its
exit. -/
structure Bypassed (graph other : Graph) (ids : List VertexId) (head tail exit : VertexId) :
    Prop where
  root : other.root = graph.root.map (VertexId.redirect head exit)
  grid : other.grid = graph.grid
  vars : other.vars = graph.vars
  outside : exit ∉ ids
  leads : graph.children tail = [exit]
  vertex : ∀ id, other.vertex? id =
    if id ∈ ids then none
    else (graph.vertex? id).map fun vertex =>
      { vertex with
        children := vertex.children.map (VertexId.redirect head exit)
        parents :=
          if id = exit then
            vertex.parents.filter (· ≠ tail) ++ (graph.parents head).filter (· ≠ tail)
          else vertex.parents }

namespace Bypassed

variable {exit : VertexId} (bypassed : graph.Bypassed other ids head tail exit)
  (corridor : graph.Corridor ids head tail kinds) (consistent : graph.Consistent) {id : VertexId}

include bypassed

theorem vertex_before {vertex : Vertex} (found : other.vertex? id = some vertex) :
    id ∉ ids ∧ ∃ before, graph.vertex? id = some before ∧ vertex.kind = before.kind ∧
      vertex.children = before.children.map (VertexId.redirect head exit) := by
  have view := bypassed.vertex id
  by_cases idIn : id ∈ ids
  · rw [if_pos idIn, found] at view
    cases view
  · rw [if_neg idIn, found] at view
    rcases Option.map_eq_some_iff.mp view.symm with ⟨before, foundBefore, rfl⟩
    exact ⟨idIn, before, foundBefore, rfl, rfl⟩

theorem declared (declared : graph.Declared) : other.Declared := by
  rw [declared_iff] at declared ⊢
  intro id vertex found var occurs
  rcases bypassed.vertex_before found with ⟨-, before, foundBefore, kind, -⟩
  rw [bypassed.vars]
  exact declared id before foundBefore var (kind ▸ occurs)

theorem children (id : VertexId) :
    other.children id =
      if id ∈ ids then [] else (graph.children id).map (VertexId.redirect head exit) := by
  have view := bypassed.vertex id
  by_cases idIn : id ∈ ids
  · rw [if_pos idIn] at view ⊢
    simp [Graph.children, view]
  · rw [if_neg idIn] at view ⊢
    cases found : graph.vertex? id <;> simp [Graph.children, view, found]

theorem redirected : graph.Redirected other ids head exit where
  root := bypassed.root
  grid := bypassed.grid
  vars := bypassed.vars
  outer := by
    intro id vertex outside found
    have view := bypassed.vertex id
    rw [if_neg outside, found, Option.map_some] at view
    exact ⟨_, view, rfl, rfl⟩

include consistent

theorem exit_live : graph.contains exit = true := by
  have edge : exit ∈ graph.children tail := by simp [bypassed.leads]
  exact consistent.child_live edge

theorem parents (id : VertexId) :
    other.parents id =
      if id ∈ ids then []
      else if id = exit then
        (graph.parents id).filter (· ≠ tail) ++ (graph.parents head).filter (· ≠ tail)
      else graph.parents id := by
  have view := bypassed.vertex id
  by_cases idIn : id ∈ ids
  · rw [if_pos idIn] at view ⊢
    simp [Graph.parents, view]
  · rw [if_neg idIn] at view ⊢
    cases found : graph.vertex? id with
    | none =>
        have notExit : id ≠ exit := by
          rintro rfl
          have live := bypassed.exit_live consistent
          simp [contains, found] at live
        simp [Graph.parents, view, found, notExit]
    | some vertex =>
        rw [found, Option.map_some] at view
        rw [parents_eq view, parents_eq found]

include corridor

theorem count_parents {source target : VertexId} (targetOut : target ∉ ids) :
    (other.parents target).count source =
      if source ∈ ids then 0
      else (graph.parents target).count source +
        if target = exit then (graph.parents head).count source else 0 := by
  rw [bypassed.parents consistent, if_neg targetOut]
  by_cases isTail : source = tail
  · subst isTail
    rw [if_pos corridor.tail_mem]
    split_ifs with isExit
    · rw [List.count_eq_zero]
      simp
    · rw [← consistent.mirrored, bypassed.leads, List.count_eq_zero, List.mem_singleton]
      exact isExit
  · have inner (sourceIn : source ∈ ids) : (graph.parents target).count source = 0 := by
      rw [← consistent.mirrored]
      exact corridor.count_children_inner sourceIn isTail (.inl targetOut)
    have entry (sourceIn : source ∈ ids) : (graph.parents head).count source = 0 := by
      rw [← consistent.mirrored]
      exact corridor.count_children_inner sourceIn isTail (.inr rfl)
    by_cases isExit : target = exit
    · rw [if_pos isExit, if_pos isExit, List.count_append,
        List.count_filter (by simpa using isTail), List.count_filter (by simpa using isTail)]
      split_ifs with sourceIn
      · rw [inner sourceIn, entry sourceIn]
      · rfl
    · rw [if_neg isExit, if_neg isExit]
      split_ifs with sourceIn
      · exact inner sourceIn
      · rfl

theorem keeps_consistent : other.Consistent := by
  have headApart : head ≠ exit := fun same => bypassed.outside (same ▸ corridor.head_mem)
  refine ⟨?_, ?_⟩
  · intro source target
    rw [bypassed.children]
    by_cases targetIn : target ∈ ids
    · rw [bypassed.parents consistent, if_pos targetIn, List.count_nil]
      split_ifs with sourceIn
      · rfl
      · have notExit : target ≠ exit := fun same => bypassed.outside (same ▸ targetIn)
        rw [count_map_redirect headApart, if_neg notExit]
        split_ifs with isHead
        · rfl
        · rw [consistent.mirrored, corridor.count_parents_inner targetIn isHead (.inl sourceIn)]
    · have notHead : target ≠ head := fun same => targetIn (same ▸ corridor.head_mem)
      rw [bypassed.count_parents corridor consistent targetIn]
      split_ifs with sourceIn isExit
      · rfl
      · rw [count_map_redirect headApart, if_neg notHead, if_pos isExit, consistent.mirrored,
          consistent.mirrored]
      · rw [count_map_redirect headApart, if_neg notHead, if_neg isExit, consistent.mirrored]
  · intro id vertex found
    rcases bypassed.vertex_before found with ⟨-, before, foundBefore, kind, leads⟩
    simpa [Kind.Fits, kind, leads] using consistent.fits foundBefore

theorem rooted (rooted : graph.Rooted) : other.Rooted := by
  rcases rooted with ⟨root, start, live, reached⟩
  have redirected := bypassed.redirected
  have exitLive := redirected.live bypassed.outside (bypassed.exit_live consistent)
  have exits {target : VertexId} (leaves : target ∈ graph.children tail) (_ : target ∉ ids) :
      other.edges.Reaches exit target := by
    rw [bypassed.leads, List.mem_singleton] at leaves
    rw [leaves]
    exact .refl _
  refine ⟨_, redirected.start corridor start, redirected.live_standIn exitLive live, ?_⟩
  intro id idLive
  rcases contains_iff.mp idLive with ⟨vertex, found⟩
  rcases bypassed.vertex_before found with ⟨idOut, before, foundBefore, -, -⟩
  have path :=
    redirected.reaches corridor consistent exits
      (reached id (contains_iff.mpr ⟨before, foundBefore⟩))
  rwa [standIn_of_not_mem idOut] at path

theorem behavesLike (rooted : graph.Rooted) (imitates : Imitates [] kinds) :
    graph.BehavesLike other := by
  refine bypassed.redirected.behavesLike corridor consistent rooted
    fun {state twinState} similar => ?_
  rcases contains_iff.mp (bypassed.exit_live consistent) with ⟨vertex, found⟩
  rcases bypassed.redirected.outer bypassed.outside found with ⟨after, afterFound, kind, children⟩
  have through := corridor.stretch
  rw [bypassed.leads] at through
  have stretch := through.append consistent (.last found)
  have twinStretch : other.Stretch exit [vertex.kind]
      (vertex.children.map (VertexId.redirect head exit)) := by
    rw [← children, ← kind]
    exact .last afterFound
  have skipped : (state.through kinds).Similar twinState :=
    (imitates.through state).symm.trans similar
  refine aligned_of_rename _ stretch twinStretch ?_ ?_ (stretch.leaves consistent state) ?_
  · rw [State.shown_append, ← imitates.shown, skipped.shown]
    rfl
  · intro drawn
    rw [State.edge_append_single, skipped.edgeKind]
    rfl
  · intro next member
    rw [← children_eq found] at member
    rw [State.through_append]
    exact redirecting_of_edge corridor consistent member (.inl bypassed.outside) (skipped.through _)

end Bypassed

/-- A corridor that leads elsewhere can always be left out. -/
theorem exists_bypassed (consistent : graph.Consistent)
    (corridor : graph.Corridor ids head tail kinds) {exit : VertexId}
    (leads : graph.children tail = [exit]) (apart : exit ≠ head) :
    ∃ other, graph.bypass ids head tail exit = .ok other ∧
      graph.Bypassed other ids head tail exit := by
  have leaves : exit ∈ graph.children tail := by simp [leads]
  have outside : exit ∉ ids := corridor.not_mem_of_exit consistent leaves apart
  have kept : requireAll (fun id => graph.contains id && id ∉ ids)
      ((graph.parents head).filter (· ≠ tail) ++ [exit]) = .ok () := by
    rw [requireAll_eq_ok_iff]
    intro id member
    have outer : graph.contains id = true ∧ id ∉ ids := by
      simp only [List.mem_append, List.mem_filter, decide_eq_true_eq, List.mem_singleton] at member
      rcases member with ⟨edge, notTail⟩ | rfl
      · exact ⟨consistent.parent_live edge, corridor.not_mem_of_parent consistent edge notTail⟩
      · exact ⟨consistent.child_live leaves, outside⟩
    simp [outer]
  simp only [bypass, kept]
  refine ⟨_, rfl, rfl, rfl, rfl, outside, leads, ?_⟩
  intro id
  rw [vertex?_setRoot, vertex?_mapVertices]
  by_cases idIn : id ∈ ids
  · simp only [if_pos idIn]
    cases graph.vertex? id <;> rfl
  · simp only [if_neg idIn]
    cases found : graph.vertex? id with
    | none => rfl
    | some vertex =>
        have notTail : id ≠ tail := fun same => idIn (same ▸ corridor.tail_mem)
        rw [Option.bind_some, Option.map_some]
        congr 2
        split_ifs with isOuter
        · rfl
        · refine (map_redirect_of_not_mem fun edge => isOuter ?_).symm
          rw [← children_eq found, consistent.mem_children_iff] at edge
          simpa [notTail] using edge

theorem Bypassed.rewritten (valid : graph.Valid) (corridor : graph.Corridor ids head tail kinds)
    {exit : VertexId} (bypassed : graph.Bypassed other ids head tail exit) :
    graph.Rewritten other [] kinds := by
  rcases valid_iff.mp valid with ⟨consistent, rooted⟩
  refine ⟨valid_iff.mpr ⟨?_, ?_⟩, ?_, fun _ => bypassed.declared⟩
  · exact bypassed.keeps_consistent corridor consistent
  · exact bypassed.rooted corridor consistent rooted
  · exact bypassed.behavesLike corridor consistent rooted

/-- The second graph is the first with the replacement in the place of a corridor. -/
inductive Replaced (graph other : Graph) (ids : List VertexId) (head tail : VertexId) :
    Replacement → Prop
  | bypass {exit : VertexId} : graph.Bypassed other ids head tail exit →
    Replaced graph other ids head tail (.bypass exit)
  | nodes {first : Node} {rest : List Node} :
      Rule.spliceFault? (first :: rest) (graph.children tail).length = none →
      graph.Substituted other ids head tail (first :: rest) →
        Replaced graph other ids head tail (.nodes first rest)

theorem Replaced.rewritten (valid : graph.Valid) (corridor : graph.Corridor ids head tail kinds)
    {replacement : Replacement} (replaced : graph.Replaced other ids head tail replacement) :
    graph.Rewritten other (replacement.toList.map Node.kind) kinds := by
  cases replaced with
  | bypass bypassed => exact bypassed.rewritten valid corridor
  | nodes faultless substituted => exact substituted.rewritten valid corridor faultless

/-- The chain becomes a corridor, and then the replacement takes its place. -/
def Spliced (graph other : Graph) (chain : Chain) (replacement : Replacement) : Prop :=
  ∃ between ids, graph.Isolated between chain ids ∧
    between.Replaced other ids chain.head.id (ids.getLastD chain.head.id) replacement

theorem Spliced.rewritten {chain : Chain} {replacement : Replacement}
    (spliced : graph.Spliced other chain replacement) :
    graph.Rewritten other (replacement.toList.map Node.kind) (chain.nodes.map Node.kind) := by
  rcases spliced with ⟨between, ids, isolated, replaced⟩
  have rewritten := replaced.rewritten isolated.valid isolated.corridor
  refine ⟨rewritten.valid, ?_, ?_⟩
  · intro imitates
    exact isolated.alike.trans (rewritten.alike imitates)
  · intro vars declared
    exact rewritten.declared vars (isolated.declared declared)

/-- A replacement that fits can be put in the place of any chain that a rule does not decline. -/
theorem exists_spliced (valid : graph.Valid) {chain : Chain} (inside : chain.In graph)
    (acyclic : ∀ link ∈ chain.shared, graph.onCycle link.id = false)
    (root : ∀ link ∈ chain.rest, graph.root ≠ some link.id) {replacement : Replacement}
    (fits : replacement.Fits chain) :
    ∃ other, graph.splice chain replacement = .ok other ∧
      graph.Spliced other chain replacement := by
  rcases extract_spec inside valid acyclic root with ⟨between, ids, extraction, isolated⟩
  have consistent := isolated.valid.consistent
  simp only [splice, extraction]
  cases replacement with
  | bypass exit =>
      rcases fits with ⟨only, apart⟩
      rcases exists_bypassed consistent isolated.corridor (isolated.leads.trans only) apart with
        ⟨other, result, bypassed⟩
      exact ⟨other, result, between, ids, isolated, .bypass bypassed⟩
  | nodes first rest =>
      have faultless : Rule.spliceFault? (first :: rest) chain.exits.length = none := fits
      rw [← isolated.leads] at faultless
      rcases exists_substituted consistent isolated.corridor
        (show 0 < (first :: rest).length by simp) with ⟨other, result, substituted⟩
      exact ⟨other, result, between, ids, isolated, .nodes faultless substituted⟩

end Graph

end StackFlow
