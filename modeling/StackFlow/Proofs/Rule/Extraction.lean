import Mathlib
import StackFlow.Proofs.Graph.Path
import StackFlow.Proofs.Rule.Chain

/-!
# Copying the end of a chain

Before a chain is replaced, the end that other vertices run into is copied onto a
path of its own. The copy makes no difference to what the program does: a vertex
and its copy do the same and lead to the same places, up to copies.

The one thing that could be lost is that the root reaches every vertex, because
the edge from the chain to the old end is gone. The old end is entered by another
edge as well, and no path to the source of that edge comes through the old end,
since the old end lies on no cycle.
-/

namespace StackFlow

namespace Graph

variable {graph : Graph}

/-- The second graph is the first with a copy of a run of vertices that begins at `first`. The edge
from the anchor leads to the copy now, and the copy has the given exits. -/
structure Extracted (graph other : Graph) (anchor first : VertexId) (exits : List VertexId)
    (nodes : List Node) : Prop where
  root : other.root = graph.root
  grid : other.grid = graph.grid
  vars : other.vars = graph.vars
  nonempty : 0 < nodes.length
  leads : graph.children anchor = [first]
  exits_live : ∀ exit ∈ exits, graph.contains exit = true
  old : ∀ {id : VertexId}, id.index < graph.slots.size →
    other.vertex? id = (graph.vertex? id).map fun vertex =>
      { vertex with
        children := if id = anchor then [⟨graph.slots.size⟩] else vertex.children
        parents := (if id = first then vertex.parents.erase anchor else vertex.parents)
          ++ List.replicate (exits.count id) ⟨graph.slots.size + (nodes.length - 1)⟩ }
  path : other.HasPath graph.slots.size [anchor] exits nodes

/-- A vertex beside itself, or a vertex of the run beside its copy, in the same state. -/
def copying (graph : Graph) (links : List Link) : Pairing := fun id state twin twinState =>
  twinState = state ∧
    ((graph.contains id = true ∧ twin = id) ∨
      ∃ offset link, links[offset]? = some link ∧ id = link.id ∧ twin = ⟨graph.slots.size + offset⟩)

/-- The vertex itself, or the vertex of the run that it is a copy of. -/
def origin (graph : Graph) (links : List Link) (id : VertexId) : VertexId :=
  if id.index < graph.slots.size then id
  else (links[id.index - graph.slots.size]?.map Link.id).getD id

theorem origin_of_live {links : List Link} {id : VertexId} (live : graph.contains id = true) :
    graph.origin links id = id :=
  if_pos (index_lt_of_live live)

theorem origin_copy {links : List Link} {offset : Nat} {link : Link}
    (place : links[offset]? = some link) :
    graph.origin links ⟨graph.slots.size + offset⟩ = link.id := by
  simp [origin, place]

namespace Extracted

variable {other : Graph} {anchor first id : VertexId} {exits : List VertexId} {nodes : List Node}
  (extracted : graph.Extracted other anchor first exits nodes)

include extracted

theorem children_old (old : id.index < graph.slots.size) :
    other.children id = if id = anchor then [⟨graph.slots.size⟩] else graph.children id := by
  cases found : graph.vertex? id with
  | none =>
      have apart : id ≠ anchor := by
        rintro rfl
        have leads := extracted.leads
        simp [children, found] at leads
      simp [children, extracted.old old, found, apart]
  | some vertex => simp [children, extracted.old old, found]

theorem parents_old (consistent : graph.Consistent) (old : id.index < graph.slots.size) :
    other.parents id =
      (if id = first then (graph.parents id).erase anchor else graph.parents id)
        ++ List.replicate (exits.count id) ⟨graph.slots.size + (nodes.length - 1)⟩ := by
  cases found : graph.vertex? id with
  | none =>
      have dead : graph.contains id = false := by simp [contains, found]
      have unlisted : id ∉ exits := fun member => by simp [extracted.exits_live id member] at dead
      have apart : id ≠ first := by
        rintro rfl
        have edge : id ∈ graph.children anchor := by simp [extracted.leads]
        simp [consistent.child_live edge] at dead
      simp [parents, extracted.old old, found, apart, List.count_eq_zero_of_not_mem unlisted]
  | some vertex => simp [parents, extracted.old old, found]

theorem anchor_old : anchor.index < graph.slots.size := by
  have edge : first ∈ graph.children anchor := by simp [extracted.leads]
  exact index_lt_of_live (live_of_mem_children edge)

theorem count_children_old (old : id.index < graph.slots.size) (target : VertexId) :
    (other.children id).count target =
      if id = anchor then if target.index = graph.slots.size then 1 else 0
      else (graph.children id).count target := by
  rw [extracted.children_old old]
  split_ifs with fromAnchor isHead
  · cases target
    simp_all
  · rw [List.count_eq_zero, List.mem_singleton]
    rintro rfl
    exact isHead rfl
  · rfl

theorem count_parents_old (consistent : graph.Consistent) (old : id.index < graph.slots.size)
    (source : VertexId) :
    (other.parents id).count source =
      (if source = anchor ∧ id = first then 0 else (graph.parents id).count source) +
        if source.index + 1 = graph.slots.size + nodes.length then exits.count id else 0 := by
  have nonempty := extracted.nonempty
  rw [extracted.parents_old consistent old, List.count_append, List.count_replicate]
  congr 1
  · by_cases isFirst : id = first
    · subst isFirst
      by_cases fromAnchor : source = anchor
      · subst fromAnchor
        simp [← consistent.mirrored, extracted.leads]
      · simp [fromAnchor, List.count_erase_of_ne fromAnchor]
    · simp [isFirst]
  · cases source
    simp only [beq_iff_eq, VertexId.mk.injEq]
    congr 1
    simp only [eq_iff_iff]
    omega

/-- The edge from the anchor to the old end is the only one that is gone. -/
theorem mirrored_old (consistent : graph.Consistent) {source target : VertexId}
    (sourceOld : source.index < graph.slots.size) (targetOld : target.index < graph.slots.size) :
    (other.children source).count target = (other.parents target).count source := by
  rw [extracted.count_children_old sourceOld, extracted.count_parents_old consistent targetOld,
    if_neg (show ¬source.index + 1 = _ by have := extracted.nonempty; omega), Nat.add_zero]
  by_cases fromAnchor : source = anchor
  · subst fromAnchor
    rw [if_pos rfl, if_neg (by omega), ← consistent.mirrored, extracted.leads]
    by_cases isFirst : target = first
    · simp [isFirst]
    · simp [isFirst, Ne.symm isFirst]
  · simp [fromAnchor, consistent.mirrored]

theorem consistent (consistent : graph.Consistent)
    (straight : ∀ node ∈ nodes.dropLast, node.kind.exit = .next)
    (fits : ∀ last, nodes.getLast? = some last → last.kind.Fits exits) : other.Consistent := by
  have anchorOld := extracted.anchor_old
  refine ⟨extracted.path.mirrored extracted.nonempty ?_ ?_ ?_ ?_, ?_⟩
  · intro source target sourceOld targetOld
    exact extracted.mirrored_old consistent sourceOld targetOld
  · intro source target sourceOld targetFresh
    rw [extracted.count_children_old sourceOld, consistent.count_children_of_size_le targetFresh]
    by_cases fromAnchor : source = anchor
    · simp [fromAnchor]
    · simp [fromAnchor, Ne.symm fromAnchor]
  · intro source target sourceFresh targetOld
    have apart : source ≠ anchor := by
      rintro rfl
      omega
    rw [extracted.count_parents_old consistent targetOld,
      consistent.count_parents_of_size_le sourceFresh]
    simp [apart]
  · intro source target sourceFresh targetFresh
    have unlisted : target ∉ exits := fun member =>
      absurd (index_lt_of_live (extracted.exits_live target member)) (by omega)
    have apart : source ≠ anchor := by
      rintro rfl
      omega
    simp [List.count_eq_zero_of_not_mem unlisted, Ne.symm apart]
  · intro id vertex found
    rcases Nat.lt_or_ge id.index graph.slots.size with old | fresh
    · rw [extracted.old old, Option.map_eq_some_iff] at found
      rcases found with ⟨before, foundBefore, rfl⟩
      have fitted := consistent.fits foundBefore
      by_cases isAnchor : id = anchor
      · subst isAnchor
        have leads := extracted.leads
        rw [children_eq foundBefore] at leads
        simpa [Kind.Fits, leads] using fitted
      · simpa [isAnchor] using fitted
    · rcases extracted.path.exists_node fresh found with
        ⟨node, -, rfl, ⟨inner, single⟩ | ⟨last, leaves⟩⟩
      · have plain : vertex.kind.arity? = none := by
          simp [Kind.arity?, straight _ inner, Exit.arity?]
        simp [Kind.Fits, plain, single]
      · rw [leaves]
        exact fits _ last

theorem declared (declared : graph.Declared)
    (copied : ∀ node ∈ nodes, ∃ id vertex, graph.vertex? id = some vertex ∧
      vertex.kind = node.kind) : other.Declared := by
  rw [declared_iff] at declared ⊢
  intro id vertex found var occurs
  rw [extracted.vars]
  rcases Nat.lt_or_ge id.index graph.slots.size with old | fresh
  · rw [extracted.old old, Option.map_eq_some_iff] at found
    rcases found with ⟨before, foundBefore, rfl⟩
    exact declared id before foundBefore var occurs
  · rcases extracted.path.exists_node fresh found with ⟨node, member, rfl, -⟩
    rcases copied _ member with ⟨source, original, originalFound, same⟩
    exact declared source original originalFound var (same ▸ occurs)

theorem edge_kept {source target : VertexId} (edge : target ∈ graph.children source) :
    (source = anchor ∧ target = first) ∨ target ∈ other.children source := by
  rw [extracted.children_old (index_lt_of_live (live_of_mem_children edge))]
  by_cases fromAnchor : source = anchor
  · left
    rw [fromAnchor, extracted.leads] at edge
    exact ⟨fromAnchor, by simpa using edge⟩
  · right
    rwa [if_neg fromAnchor]

theorem exists_other_parent (consistent : graph.Consistent)
    (shared : (graph.parents first).length ≠ 1) :
    ∃ parent ∈ graph.parents first, parent ≠ anchor := by
  by_contra only
  push Not at only
  have once : (graph.parents first).count anchor = 1 := by
    rw [← consistent.mirrored, extracted.leads]
    simp
  exact shared
    (by rw [← List.count_eq_length.mpr fun parent member => (only parent member).symm, once])

/-- The root reaches the old end by its other predecessor: no way to that predecessor leads through
the end itself, which lies on no cycle. -/
theorem reaches_first (consistent : graph.Consistent) {root : VertexId}
    (reached : ∀ id, graph.contains id = true → graph.edges.Reaches root id)
    (shared : (graph.parents first).length ≠ 1) (acyclic : graph.onCycle first = false) :
    other.edges.Reaches root first := by
  rcases extracted.exists_other_parent consistent shared with ⟨parent, isParent, apart⟩
  have edge : first ∈ graph.children parent := consistent.mem_children_iff.mpr isParent
  -- A path is kept, or it used the lost edge and so went on from the old end.
  have splits {start last : VertexId} (path : graph.edges.Reaches start last) :
      other.edges.Reaches start last ∨ graph.edges.Reaches first last := by
    induction path with
    | refl _ => exact .inl (.refl _)
    | step step rest ih =>
        rcases ih with kept | through
        · rcases extracted.edge_kept step with ⟨-, rfl⟩ | kept'
          · exact .inr rest
          · exact .inl (.step kept' kept)
        · exact .inr through
  rcases splits (reached parent (live_of_mem_children edge)) with kept | through
  · refine kept.tail ?_
    rcases extracted.edge_kept edge with ⟨same, -⟩ | kept'
    · exact absurd same apart
    · exact kept'
  · have cycle : graph.onCycle first = true := by
      simp only [onCycle, decide_eq_true_eq, Digraph.mem_search_iff]
      cases through with
      | refl _ => exact ⟨first, edge, .refl first⟩
      | step step rest => exact ⟨_, step, rest.tail edge⟩
    simp [acyclic] at cycle

theorem rooted (consistent : graph.Consistent) (rooted : graph.Rooted)
    (shared : (graph.parents first).length ≠ 1) (acyclic : graph.onCycle first = false) :
    other.Rooted := by
  rcases rooted with ⟨root, start, live, reached⟩
  have toFirst := extracted.reaches_first consistent reached shared acyclic
  have stays {source target : VertexId} (path : graph.edges.Reaches source target)
      (before : other.edges.Reaches root source) : other.edges.Reaches root target := by
    induction path with
    | refl _ => exact before
    | step step _ ih =>
        apply ih
        rcases extracted.edge_kept step with ⟨-, rfl⟩ | kept
        · exact toFirst
        · exact before.tail kept
  have oldReached {id : VertexId} (idLive : graph.contains id = true) :
      other.edges.Reaches root id :=
    stays (reached id idLive) (.refl root)
  have rootLive : other.contains root = true := by
    rcases contains_iff.mp live with ⟨vertex, found⟩
    simp [contains, extracted.old (index_lt_of_live live), found]
  refine ⟨root, extracted.root.trans start, rootLive, ?_⟩
  intro id idLive
  rcases Nat.lt_or_ge id.index graph.slots.size with old | fresh
  · apply oldReached
    simpa [contains, extracted.old old] using idLive
  · have inside := extracted.path.lt_of_live idLive
    rcases id with ⟨index⟩
    rcases Nat.exists_eq_add_of_le fresh with ⟨offset, (rfl : index = graph.slots.size + offset)⟩
    have anchorLive : graph.contains anchor = true := by
      have edge : first ∈ graph.children anchor := by simp [extracted.leads]
      exact live_of_mem_children edge
    have entry : (⟨graph.slots.size⟩ : VertexId) ∈ other.children anchor := by
      simp [extracted.children_old extracted.anchor_old]
    exact ((oldReached anchorLive).tail entry).trans
      (extracted.path.reaches (by simpa using inside))

variable {links : List Link} (consistent : graph.Consistent)
include consistent

/-- Outside the run both programs are at the same vertex; the edge from the anchor leads to the
copy. -/
theorem aligned_old (begins : links.head?.map Link.id = some first)
    (live : graph.contains id = true) (state : State) :
    graph.Aligned other (graph.copying links) id state id state := by
  rcases contains_iff.mp live with ⟨vertex, found⟩
  have twinFound := extracted.old (index_lt_of_live live)
  rw [found, Option.map_some] at twinFound
  by_cases isAnchor : id = anchor
  · have leads : vertex.children = [first] := by
      rw [← children_eq found, isAnchor, extracted.leads]
    refine aligned_of_vertices (fun _ => ⟨graph.slots.size⟩) found twinFound
      (consistent.fits found) ?_ rfl (fun _ => rfl) ?_
    · simp [isAnchor, leads]
    · intro next member
      rw [leads, List.mem_singleton] at member
      rcases Option.map_eq_some_iff.mp begins with ⟨link, isFirst, same⟩
      exact ⟨rfl, .inr ⟨0, link, List.head?_eq_getElem? ▸ isFirst, member.trans same.symm, rfl⟩⟩
  · refine aligned_of_vertices (fun next => next) found twinFound (consistent.fits found) ?_ rfl
      (fun _ => rfl) ?_
    · simp [isAnchor]
    · intro next member
      exact ⟨rfl, .inl ⟨consistent.child_live (children_eq found ▸ member), rfl⟩⟩

variable (copied : nodes = links.map (·.vertex.toNode))
  (found : ∀ link ∈ links, graph.vertex? link.id = some link.vertex)
  (linked : links.IsChain Link.LeadsTo)
  (ends : ∀ last, links.getLast? = some last → last.vertex.children = exits)
include copied found linked ends

/-- A vertex and its copy do the same. -/
theorem aligned_copy {offset : Nat} {link : Link} (place : links[offset]? = some link)
    (state : State) :
    graph.Aligned other (graph.copying links) link.id state ⟨graph.slots.size + offset⟩ state := by
  have linkFound := found link (List.mem_of_getElem? place)
  have twinFound := extracted.path.vertex offset
  simp only [copied, List.getElem?_map, place, Option.map_some, List.length_map] at twinFound
  by_cases isLast : offset + 1 = links.length
  · have exitsEq : link.vertex.children = exits := by
      apply ends
      rw [List.getLast?_eq_getElem?, ← isLast, Nat.add_sub_cancel, place]
    refine aligned_of_vertices (fun next => next) linkFound twinFound
      (consistent.fits linkFound) ?_ rfl (fun _ => rfl) ?_
    · simp [isLast, exitsEq]
    · intro next member
      exact ⟨rfl, .inl ⟨consistent.child_live (children_eq linkFound ▸ member), rfl⟩⟩
  · rcases List.getElem?_eq_some_iff.mp place with ⟨inside, atPlace⟩
    have more : offset + 1 < links.length := by omega
    have leads := (List.isChain_iff_getElem.mp linked offset more).2
    rw [atPlace] at leads
    refine aligned_of_vertices (fun _ => ⟨graph.slots.size + (offset + 1)⟩) linkFound twinFound
      (consistent.fits linkFound) ?_ rfl (fun _ => rfl) ?_
    · simp [isLast, leads, Nat.add_assoc]
    · intro next member
      rw [leads, List.mem_singleton] at member
      exact ⟨rfl, .inr ⟨offset + 1, links[offset + 1], by simp [more], member, rfl⟩⟩

/-- A vertex has the kind of the one that it is a copy of, and the same children up to copies. -/
theorem view_origin (begins : links.head?.map Link.id = some first) {vertex : Vertex}
    (after : other.vertex? id = some vertex) :
    ∃ before, graph.vertex? (graph.origin links id) = some before ∧ vertex.kind = before.kind ∧
      vertex.children.map (graph.origin links) = before.children := by
  have unchanged {source : VertexId} {before : Vertex}
      (sourceFound : graph.vertex? source = some before) :
      before.children.map (graph.origin links) = before.children := by
    refine (List.map_congr_left fun next member => ?_).trans (List.map_id _)
    exact origin_of_live (consistent.child_live (children_eq sourceFound ▸ member))
  rcases Nat.lt_or_ge id.index graph.slots.size with old | fresh
  · rw [extracted.old old, Option.map_eq_some_iff] at after
    rcases after with ⟨before, beforeFound, rfl⟩
    have same : graph.origin links id = id := if_pos old
    refine ⟨before, by rwa [same], rfl, ?_⟩
    by_cases isAnchor : id = anchor
    · rcases Option.map_eq_some_iff.mp begins with ⟨link, isFirst, named⟩
      rw [List.head?_eq_getElem?] at isFirst
      have copy : graph.origin links ⟨graph.slots.size + 0⟩ = link.id := origin_copy isFirst
      have leads := extracted.leads
      rw [← isAnchor, children_eq beforeFound] at leads
      simpa [isAnchor, leads, ← named] using copy
    · simpa [isAnchor] using unchanged beforeFound
  · rcases id with ⟨index⟩
    rcases Nat.exists_eq_add_of_le fresh with ⟨offset, (rfl : index = graph.slots.size + offset)⟩
    have inside := extracted.path.lt_of_live (contains_iff.mpr ⟨vertex, after⟩)
    have bound : offset < links.length := by simpa [copied] using inside
    have place : links[offset]? = some links[offset] := by simp [bound]
    have linkFound := found _ (List.getElem_mem bound)
    rw [extracted.path.vertex offset] at after
    simp only [copied, List.getElem?_map, place, Option.map_some, List.length_map,
      Option.some.injEq] at after
    subst after
    refine ⟨links[offset].vertex, origin_copy place ▸ linkFound, rfl, ?_⟩
    by_cases isLast : offset + 1 = links.length
    · have exitsEq : links[offset].vertex.children = exits := by
        apply ends
        rw [List.getLast?_eq_getElem?, ← isLast, Nat.add_sub_cancel, place]
      simpa [isLast, ← exitsEq] using unchanged linkFound
    · have more : offset + 1 < links.length := by omega
      have leads := (List.isChain_iff_getElem.mp linked offset more).2
      have copy : graph.origin links ⟨graph.slots.size + (offset + 1)⟩ = links[offset + 1].id :=
        origin_copy (by simp [more])
      simpa [isLast, leads, Nat.add_assoc] using copy

theorem behavesLike (rooted : graph.Rooted) (begins : links.head?.map Link.id = some first) :
    graph.BehavesLike other := by
  rcases rooted with ⟨root, start, live, -⟩
  have aligned {id state twin twinState} (pair : graph.copying links id state twin twinState) :
      graph.Aligned other (graph.copying links) id state twin twinState := by
    rcases pair with ⟨rfl, ⟨idLive, rfl⟩ | ⟨offset, link, place, rfl, rfl⟩⟩
    · exact extracted.aligned_old consistent begins idLive twinState
    · exact extracted.aligned_copy consistent copied found linked ends place twinState
  refine behavesLike_of_aligned aligned start (extracted.root.trans start) ?_
  intro input
  exact ⟨initialState_congr extracted.vars extracted.grid input, .inl ⟨live, rfl⟩⟩

end Extracted

variable {other : Graph} {chain : Chain}

/-- The shared end of a chain can be copied, whatever the chain leads to. -/
theorem exists_extracted (inside : chain.In graph) (consistent : graph.Consistent)
    {anchor first : Link} {others : List Link} (shape : chain.shared = first :: others)
    (anchorLast : chain.privateLinks.getLast? = some anchor) :
    ∃ other, graph.extract chain = .ok (other, chain.copiedIds graph.slots.size) ∧
      graph.Extracted other anchor.id first.id chain.exits
        (chain.shared.map (·.vertex.toNode)) := by
  have anchorMember := chain.mem_links_of_mem_private (List.mem_of_getLast? anchorLast)
  have firstMember : first ∈ chain.links := chain.mem_links_of_mem_shared (by simp [shape])
  have exitsLive := inside.exits_live consistent
  have anchorLeads : graph.children anchor.id = [first.id] := by
    rw [children_eq (inside.found anchor anchorMember), (inside.anchor_leads shape anchorLast).2]
  have anchorOld := index_lt_of_live (inside.live anchorMember)
  have firstOld := index_lt_of_live (inside.live firstMember)
  have kept (vertices : List Vertex) :
      requireAll (graph.append vertices).contains chain.exits = .ok () := by
    rw [requireAll_eq_ok_iff]
    intro exit member
    rw [contains, vertex?_append, if_pos (index_lt_of_live (exitsLive exit member))]
    exact exitsLive exit member
  simp only [extract, shape, chain.getLastD_privateIds anchorLast, kept, Chain.copiedIds,
    List.length_map]
  refine ⟨_, rfl, rfl, rfl, rfl, by simp, anchorLeads, exitsLive, ?_, ?_⟩
  · intro id old
    rw [vertex?_mapVertices, vertex?_append, if_pos old]
    cases found : graph.vertex? id with
    | none => rfl
    | some vertex =>
        simp only [Option.bind_some, Option.map_some, List.map_cons, List.length_cons,
          List.length_map, Nat.add_sub_cancel]
        congr 2
        split_ifs with isAnchor
        · rw [← children_eq found, isAnchor, anchorLeads]
          simp [VertexId.redirect]
        · rfl
  · intro offset
    have notAnchor : (⟨graph.slots.size + offset⟩ : VertexId) ≠ anchor.id := fun same => by
      simp [← same] at anchorOld
    have notFirst : (⟨graph.slots.size + offset⟩ : VertexId) ≠ first.id := fun same => by
      simp [← same] at firstOld
    have unlisted : chain.exits.count ⟨graph.slots.size + offset⟩ = 0 := by
      rw [List.count_eq_zero]
      intro member
      have old := index_lt_of_live (exitsLive _ member)
      simp at old
    rw [vertex?_mapVertices, vertex?_append, if_neg (by simp)]
    simp only [Nat.add_sub_cancel_left, if_neg notAnchor, if_neg notFirst, unlisted,
      List.replicate_zero, List.append_nil]
    exact Option.bind_fun_some _

section

variable {anchor first : Link} {others : List Link} (inside : chain.In graph)
  (consistent : graph.Consistent) (shape : chain.shared = first :: others)
  (anchorLast : chain.privateLinks.getLast? = some anchor)
  (extracted : graph.Extracted other anchor.id first.id chain.exits
    (chain.shared.map (·.vertex.toNode)))

include inside consistent shape anchorLast extracted

/-- Copying the end of a chain leaves the edges alone that stay in its private part. -/
theorem joins_of_private {before after : Link} {place : Nat}
    (more : place + 1 < chain.privateLinks.length) (atBefore : chain.privateLinks[place] = before)
    (atAfter : chain.privateLinks[place + 1] = after) : other.Joins before.id after.id := by
  have beforeMember : before ∈ chain.privateLinks := atBefore ▸ List.getElem_mem _
  have afterMember : after ∈ chain.privateLinks := atAfter ▸ List.getElem_mem _
  have beforeLink := chain.mem_links_of_mem_private beforeMember
  have afterLink := chain.mem_links_of_mem_private afterMember
  have distinct := inside.nodup_ids
  have privateDistinct := List.Nodup.of_append_left distinct
  have apart {link copied : Link} (own : link ∈ chain.privateLinks)
      (shared : copied ∈ chain.shared) : link.id ≠ copied.id :=
    fun same => List.disjoint_of_nodup_append distinct (List.mem_map_of_mem own)
      (same ▸ List.mem_map_of_mem shared)
  have single : after.vertex.parents.length = 1 := by
    have tailMember : after ∈ chain.rest.takeWhile (·.vertex.parents.length = 1) := by
      rw [← atAfter]
      simp [Chain.privateLinks]
    simpa using List.mem_takeWhile_imp tailMember
  have leads : before.LeadsTo after := by
    have step := List.isChain_iff_getElem.mp inside.linked_private place more
    rwa [atBefore, atAfter] at step
  have joined := inside.joins consistent beforeLink afterLink leads single
  have notAnchor : before.id ≠ anchor.id := by
    intro same
    have equal :=
      List.inj_on_of_nodup_map privateDistinct beforeMember (List.mem_of_getLast? anchorLast) same
    rw [List.getLast?_eq_getElem?, List.getElem?_eq_getElem (by omega), Option.some.injEq, ← equal,
      ← atBefore, (List.Nodup.of_map _ privateDistinct).getElem_inj_iff] at anchorLast
    omega
  have notFirst : after.id ≠ first.id := apart afterMember (by simp [shape])
  have notExit : after.id ∉ chain.exits := by
    intro member
    have lastShared : chain.last ∈ chain.shared :=
      List.mem_of_getLast? (chain.getLast?_shared (by simp [shape]))
    have edge : after.id ∈ graph.children chain.last.id := by rwa [children_eq inside.found_last]
    rw [consistent.mem_children_iff, joined.2, List.mem_singleton] at edge
    exact apart beforeMember lastShared edge.symm
  refine ⟨?_, ?_⟩
  · rw [extracted.children_old (index_lt_of_live (inside.live beforeLink)), if_neg notAnchor,
      joined.1]
  · rw [extracted.parents_old consistent (index_lt_of_live (inside.live afterLink)),
      if_neg notFirst, joined.2, List.count_eq_zero_of_not_mem notExit]
    rfl

/-- Nothing else runs into the copy of the end, nor into the private part behind its head. -/
theorem isChain_copiedIds : (chain.copiedIds graph.slots.size).IsChain other.Joins := by
  have nonempty : 0 < chain.shared.length := by simp [shape]
  have pathInside {offset : Nat} (bound : offset < chain.shared.length) :
      offset < (chain.shared.map (·.vertex.toNode)).length := by simpa using bound
  rw [Chain.copiedIds, ← chain.map_id_privateLinks, List.isChain_append]
  refine ⟨?_, ?_, ?_⟩
  · rw [List.isChain_iff_getElem]
    intro place more
    simp only [List.length_map] at more
    simp only [List.getElem_map]
    exact joins_of_private inside consistent shape anchorLast extracted more rfl rfl
  · rw [List.isChain_iff_getElem]
    intro place more
    simp only [List.length_map, List.length_range] at more
    simp only [List.getElem_map, List.getElem_range]
    refine ⟨?_, ?_⟩
    · rw [extracted.path.children (pathInside (by omega)), if_neg (by simp; omega), Nat.add_assoc]
    · rw [extracted.path.parents (pathInside (by omega)), if_neg (by omega)]
      rfl
  · intro last isLast head isHead
    rw [List.getLast?_map, anchorLast, Option.map_some, Option.mem_some_iff] at isLast
    rw [List.head?_map, List.head?_range, if_neg (by omega), Option.map_some,
      Option.mem_some_iff] at isHead
    subst isLast isHead
    refine ⟨?_, ?_⟩
    · rw [extracted.children_old extracted.anchor_old, if_pos rfl, Nat.add_zero]
    · rw [extracted.path.parents (pathInside nonempty), if_pos rfl]

omit consistent shape anchorLast in
theorem kinds_copiedIds :
    List.Forall₂ (fun id kind => (other.vertex? id).map (·.kind) = some kind)
      (chain.copiedIds graph.slots.size) (chain.nodes.map Node.kind) := by
  have kinds : chain.nodes.map Node.kind =
      chain.privateLinks.map (·.vertex.kind) ++ chain.shared.map (·.vertex.kind) := by
    rw [← List.map_append, chain.privateLinks_append_shared, Chain.nodes, List.map_map]
    rfl
  rw [kinds, Chain.copiedIds, ← chain.map_id_privateLinks]
  apply List.rel_append
  · rw [List.forall₂_map_left_iff, List.forall₂_map_right_iff, List.forall₂_same]
    intro link member
    have linkMember := chain.mem_links_of_mem_private member
    simp [extracted.old (index_lt_of_live (inside.live linkMember)), inside.found link linkMember]
  · rw [List.forall₂_map_left_iff, List.forall₂_map_right_iff, List.forall₂_iff_get]
    refine ⟨by simp, ?_⟩
    intro offset _ bound
    simp [extracted.path.vertex, bound]

omit consistent shape anchorLast extracted in
theorem nodup_copiedIds : (chain.copiedIds graph.slots.size).Nodup := by
  rw [Chain.copiedIds, ← chain.map_id_privateLinks, List.nodup_append]
  refine ⟨inside.nodup_ids.of_append_left,
    List.Nodup.map (fun _ _ same => by simpa using same) List.nodup_range, ?_⟩
  intro id own copy isCopy same
  rcases List.mem_map.mp own with ⟨link, member, rfl⟩
  rcases List.mem_map.mp isCopy with ⟨offset, -, rfl⟩
  have old := index_lt_of_live (inside.live (chain.mem_links_of_mem_private member))
  simp [same] at old

/-- The private part of a chain and the copy of its end are a corridor. -/
theorem corridor_of_extracted (otherConsistent : other.Consistent) (rooted : graph.Rooted)
    (root : ∀ link ∈ chain.rest, graph.root ≠ some link.id) :
    other.Corridor (chain.copiedIds graph.slots.size) chain.head.id
      ⟨graph.slots.size + (chain.shared.length - 1)⟩ (chain.nodes.map Node.kind) := by
  refine corridor_of_isChain otherConsistent (nodup_copiedIds inside)
    (kinds_copiedIds inside extracted)
    (isChain_copiedIds inside consistent shape anchorLast extracted) ?_
    (chain.getLast?_copiedIds shape _) ?_
  · simp [Chain.copiedIds, ← chain.map_id_privateLinks, Chain.privateLinks]
  · intro id member isRoot
    rw [extracted.root] at isRoot
    rw [Chain.copiedIds, ← chain.map_id_privateLinks] at member
    rcases List.mem_append.mp member with own | copy
    · rcases List.mem_map.mp own with ⟨link, linkMember, rfl⟩
      rcases List.mem_cons.mp linkMember with rfl | behind
      · rfl
      · exact absurd isRoot (root link ((List.takeWhile_prefix _).subset behind))
    · rcases List.mem_map.mp copy with ⟨offset, -, rfl⟩
      rcases rooted with ⟨start, isStart, live, -⟩
      have old := index_lt_of_live live
      rw [isRoot, Option.some.injEq] at isStart
      simp [← isStart] at old

omit anchorLast in
theorem valid_of_extracted (rooted : graph.Rooted) (acyclic : graph.onCycle first.id = false) :
    other.Valid := by
  refine valid_iff.mpr ⟨extracted.consistent consistent ?_ ?_, ?_⟩
  · intro node member
    rw [← List.map_dropLast, List.mem_map] at member
    rcases member with ⟨link, inner, rfl⟩
    exact Link.exit_of_mem_dropLast inside.linked_shared inner
  · intro last isLast
    rw [List.getLast?_map, chain.getLast?_shared (by simp [shape]), Option.map_some,
      Option.some.injEq] at isLast
    rw [← isLast]
    exact consistent.fits inside.found_last
  · exact extracted.rooted consistent rooted (inside.parents_first shape) acyclic

omit consistent shape anchorLast in
theorem declared_of_extracted (declared : graph.Declared) : other.Declared := by
  apply extracted.declared declared
  intro node member
  rcases List.mem_map.mp member with ⟨link, shared, rfl⟩
  exact ⟨link.id, link.vertex, inside.found link (chain.mem_links_of_mem_shared shared), rfl⟩

omit anchorLast in
theorem behavesLike_of_extracted (rooted : graph.Rooted) : graph.BehavesLike other := by
  refine extracted.behavesLike consistent rfl
    (fun link member => inside.found link (chain.mem_links_of_mem_shared member))
    inside.linked_shared ?_ rooted (by simp [shape])
  intro last isLast
  rw [chain.getLast?_shared (by simp [shape]), Option.some.injEq] at isLast
  rw [← isLast]
  rfl

omit anchorLast in
theorem view_origin_of_extracted {id : VertexId} {vertex : Vertex}
    (after : other.vertex? id = some vertex) :
    ∃ before, graph.vertex? (graph.origin chain.shared id) = some before ∧
      vertex.kind = before.kind ∧
      vertex.children.map (graph.origin chain.shared) = before.children := by
  refine extracted.view_origin consistent rfl
    (fun link member => inside.found link (chain.mem_links_of_mem_shared member))
    inside.linked_shared ?_ (by simp [shape]) after
  intro last isLast
  rw [chain.getLast?_shared (by simp [shape]), Option.some.injEq] at isLast
  rw [← isLast]
  rfl

end

/-- The second graph is the first, or it has a copy of the end that the chain shares with other
paths. -/
def Unshared (graph other : Graph) (chain : Chain) : Prop :=
  other = graph ∨ ∃ anchor first others, chain.shared = first :: others ∧
    chain.privateLinks.getLast? = some anchor ∧
    graph.Extracted other anchor.id first.id chain.exits (chain.shared.map (·.vertex.toNode))

theorem Unshared.exists_origin (unshared : graph.Unshared other chain) (inside : chain.In graph)
    (consistent : graph.Consistent) :
    ∃ rename : VertexId → VertexId, (∀ {id}, graph.contains id = true → rename id = id) ∧
      ∀ {id vertex}, other.vertex? id = some vertex →
        ∃ before, graph.vertex? (rename id) = some before ∧
          vertex.kind = before.kind ∧ vertex.children.map rename = before.children := by
  rcases unshared with rfl | ⟨anchor, first, others, shape, -, extracted⟩
  · refine ⟨id, fun _ => rfl, fun {_ vertex} found => ⟨vertex, found, rfl, List.map_id _⟩⟩
  · exact ⟨graph.origin chain.shared, origin_of_live,
      view_origin_of_extracted inside consistent shape extracted⟩

/-- The second graph does the same as the first, and in it the chain is a corridor. -/
structure Isolated (graph other : Graph) (chain : Chain) (ids : List VertexId) : Prop where
  unshared : graph.Unshared other chain
  valid : other.Valid
  alike : graph.BehavesLike other
  declared : graph.Declared → other.Declared
  corridor :
    other.Corridor ids chain.head.id (ids.getLastD chain.head.id) (chain.nodes.map Node.kind)
  leads : other.children (ids.getLastD chain.head.id) = chain.exits

/-- Copying the shared end of a chain makes a corridor of it. -/
theorem extract_spec (inside : chain.In graph) (valid : graph.Valid)
    (acyclic : ∀ link ∈ chain.shared, graph.onCycle link.id = false)
    (root : ∀ link ∈ chain.rest, graph.root ≠ some link.id) :
    ∃ other ids, graph.extract chain = .ok (other, ids) ∧ graph.Isolated other chain ids := by
  rcases valid_iff.mp valid with ⟨consistent, rooted⟩
  cases shape : chain.shared with
  | nil =>
      have last : chain.ids.getLastD chain.head.id = chain.last.id := by
        rw [List.getLastD_eq_getLast?, Chain.ids, List.getLast?_map, chain.getLast?_links]
        rfl
      refine ⟨graph, chain.ids, by simp [extract, shape], .inl rfl, valid, .refl graph, id, ?_, ?_⟩
      · rw [last]
        exact corridor_of_unshared inside consistent shape root
      · rw [last]
        exact children_eq inside.found_last
  | cons first others =>
      rcases chain.exists_anchor with ⟨anchor, anchorLast⟩
      rcases exists_extracted inside consistent shape anchorLast with ⟨other, result, extracted⟩
      have otherValid :=
        valid_of_extracted inside consistent shape extracted rooted
          (acyclic first (by simp [shape]))
      have last : (chain.copiedIds graph.slots.size).getLastD chain.head.id =
          ⟨graph.slots.size + (chain.shared.length - 1)⟩ := by
        rw [List.getLastD_eq_getLast?, chain.getLast?_copiedIds shape, Option.getD_some]
      refine ⟨other, _, result, .inr ⟨anchor, first, others, shape, anchorLast, extracted⟩,
        otherValid, behavesLike_of_extracted inside consistent shape extracted rooted,
        declared_of_extracted inside extracted, ?_, ?_⟩
      · rw [last]
        exact corridor_of_extracted inside consistent shape anchorLast extracted
          otherValid.consistent rooted root
      · rw [last, extracted.path.children (by simp [shape]), if_pos (by simp [shape])]

end Graph

end StackFlow
