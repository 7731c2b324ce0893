import Mathlib
import StackFlow.Proofs.Behaviour.Simulation
import StackFlow.Proofs.Machine.Similar
import StackFlow.Rule.Apply

/-!
# Corridors

A corridor is a straight run of vertices that is entered at its head and left at
its tail only. Taking it out of the graph concerns nothing but the edges to its
head and from its tail.

Whatever is put in the place of a corridor, the rest of the program is the same,
except that edges to the head lead elsewhere. What follows from this alone is
proved here: the root reaches as much as before, and the programs behave alike if
the corridor and what is in its place are aligned.
-/

namespace StackFlow

/-- A map that turns edges into paths turns paths into paths. -/
theorem Digraph.Reaches.map {α : Type} {graph other : Digraph α} {rename : α → α}
    (edges : ∀ {source target}, target ∈ graph.next source →
      other.Reaches (rename source) (rename target))
    {source target : α} (path : graph.Reaches source target) :
    other.Reaches (rename source) (rename target) := by
  induction path with
  | refl _ => exact .refl _
  | step edge _ ih => exact (edges edge).trans ih

namespace Graph

variable {graph : Graph}

/-- The edge is the only one that leaves its source and the only one that enters its target. -/
def Joins (graph : Graph) (source target : VertexId) : Prop :=
  graph.children source = [target] ∧ graph.parents target = [source]

/-- A straight run of vertices that is entered at its head and left at its tail only. Its vertices
have the given kinds, and the root does not lie behind its head. -/
structure Corridor (graph : Graph) (ids : List VertexId) (head tail : VertexId)
    (kinds : List Kind) : Prop where
  nodup : ids.Nodup
  linked : ids.IsChain graph.Joins
  kept : List.Forall₂ (fun id kind => (graph.vertex? id).map (·.kind) = some kind) ids kinds
  first : ids.head? = some head
  last : ids.getLast? = some tail
  inner : ∀ {id}, id ∈ ids → id ≠ tail → ∃ next ∈ ids, next ≠ head ∧ graph.children id = [next]
  entry : ∀ {id}, id ∈ ids → id ≠ head → ∃ before ∈ ids, before ≠ tail ∧ graph.parents id = [before]
  root : ∀ {id}, id ∈ ids → graph.root = some id → id = head
  stretch : graph.Stretch head kinds (graph.children tail)

theorem stretch_of_isChain (consistent : graph.Consistent) {ids : List VertexId} {kinds : List Kind}
    {head tail : VertexId}
    (kept : List.Forall₂ (fun id kind => (graph.vertex? id).map (·.kind) = some kind) ids kinds)
    (linked : ids.IsChain graph.Joins) (first : ids.head? = some head)
    (last : ids.getLast? = some tail) : graph.Stretch head kinds (graph.children tail) := by
  induction kept generalizing head with
  | nil => simp at first
  | @cons id kind ids kinds kindOf rest ih =>
      cases first
      rcases Option.map_eq_some_iff.mp kindOf with ⟨vertex, found, rfl⟩
      cases rest with
      | nil =>
          rw [List.getLast?_singleton, Option.some.injEq] at last
          rw [← last, children_eq found]
          exact .last found
      | @cons next _ ids kinds _ _ =>
          rw [List.isChain_cons_cons] at linked
          have leads : vertex.children = [next] := by rw [← children_eq found, linked.1.1]
          rw [List.getLast?_cons_cons] at last
          exact .cons found (consistent.exit_of_children found leads) leads (ih linked.2 rfl last)

theorem corridor_of_isChain (consistent : graph.Consistent) {ids : List VertexId}
    {kinds : List Kind} {head tail : VertexId} (nodup : ids.Nodup)
    (kept : List.Forall₂ (fun id kind => (graph.vertex? id).map (·.kind) = some kind) ids kinds)
    (linked : ids.IsChain graph.Joins) (first : ids.head? = some head)
    (last : ids.getLast? = some tail) (root : ∀ {id}, id ∈ ids → graph.root = some id → id = head) :
    graph.Corridor ids head tail kinds := by
  refine ⟨nodup, linked, kept, first, last, ?_, ?_, root,
    stretch_of_isChain consistent kept linked first last⟩
  · intro id member notTail
    rcases List.mem_iff_getElem.mp member with ⟨place, inside, rfl⟩
    have more : place + 1 < ids.length := by
      by_contra ends
      apply notTail
      rw [List.getLast?_eq_getElem?, show ids.length - 1 = place by omega,
        List.getElem?_eq_getElem inside] at last
      exact Option.some.inj last
    refine ⟨ids[place + 1], List.getElem_mem more, ?_,
      (List.isChain_iff_getElem.mp linked place more).1⟩
    intro same
    rw [List.head?_eq_getElem?, List.getElem?_eq_getElem (by omega), ← same, Option.some.injEq,
      nodup.getElem_inj_iff] at first
    omega
  · intro id member notHead
    rcases List.mem_iff_getElem.mp member with ⟨place, inside, rfl⟩
    cases place with
    | zero =>
        rw [List.head?_eq_getElem?, List.getElem?_eq_getElem inside] at first
        exact absurd (Option.some.inj first) notHead
    | succ place =>
        refine ⟨ids[place], List.getElem_mem (by omega), ?_,
          (List.isChain_iff_getElem.mp linked place inside).2⟩
        intro same
        rw [List.getLast?_eq_getElem?, List.getElem?_eq_getElem (by omega), ← same,
          Option.some.injEq, nodup.getElem_inj_iff] at last
        omega

/-- The vertex in the place of another, where one vertex stands for all of a corridor. -/
def standIn (ids : List VertexId) (place id : VertexId) : VertexId :=
  if id ∈ ids then place else id

section

variable {ids : List VertexId} {place id : VertexId}

theorem standIn_of_mem (member : id ∈ ids) : standIn ids place id = place :=
  if_pos member

theorem standIn_of_not_mem (outside : id ∉ ids) : standIn ids place id = id :=
  if_neg outside

end

variable {other : Graph} {ids : List VertexId} {head tail : VertexId} {kinds : List Kind}

namespace Corridor

variable (corridor : graph.Corridor ids head tail kinds) {source target : VertexId}

include corridor

theorem head_mem : head ∈ ids :=
  List.mem_of_head? corridor.first

theorem tail_mem : tail ∈ ids :=
  List.mem_of_getLast? corridor.last

/-- No edge but one from the tail leaves the corridor. -/
theorem count_children_inner (member : source ∈ ids) (notTail : source ≠ tail)
    (outside : target ∉ ids ∨ target = head) : (graph.children source).count target = 0 := by
  rcases corridor.inner member notTail with ⟨next, nextMember, notHead, leads⟩
  rw [leads, List.count_eq_zero, List.mem_singleton]
  rintro rfl
  rcases outside with outside | rfl
  · exact outside nextMember
  · exact notHead rfl

/-- No edge but one to the head enters the corridor. -/
theorem count_parents_inner (member : target ∈ ids) (notHead : target ≠ head)
    (outside : source ∉ ids ∨ source = tail) : (graph.parents target).count source = 0 := by
  rcases corridor.entry member notHead with ⟨before, beforeMember, notTail, entered⟩
  rw [entered, List.count_eq_zero, List.mem_singleton]
  rintro rfl
  rcases outside with outside | rfl
  · exact outside beforeMember
  · exact notTail rfl

theorem live (member : source ∈ ids) : graph.contains source = true := by
  by_cases isHead : source = head
  · subst isHead
    exact corridor.stretch.live
  · rcases corridor.entry member isHead with ⟨before, -, -, entered⟩
    exact live_of_mem_parents (by rw [entered]; exact List.mem_singleton_self before)

theorem head_old : head.index < graph.slots.size :=
  index_lt_of_live (corridor.live corridor.head_mem)

theorem tail_old : tail.index < graph.slots.size :=
  index_lt_of_live (corridor.live corridor.tail_mem)

/-- An edge into the corridor from outside leads to its head. -/
theorem eq_head_of_edge (consistent : graph.Consistent) (edge : target ∈ graph.children source)
    (outside : source ∉ ids ∨ source = tail) (member : target ∈ ids) : target = head := by
  by_contra notHead
  have noEdge := corridor.count_parents_inner member notHead outside
  rw [← consistent.mirrored, List.count_eq_zero] at noEdge
  exact noEdge edge

theorem not_mem_of_parent (consistent : graph.Consistent) (edge : source ∈ graph.parents head)
    (notTail : source ≠ tail) : source ∉ ids := by
  intro member
  have noEdge := corridor.count_children_inner member notTail (.inr rfl)
  exact List.count_eq_zero.mp noEdge (consistent.mem_children_iff.mpr edge)

theorem not_mem_of_exit (consistent : graph.Consistent) (edge : target ∈ graph.children tail)
    (notHead : target ≠ head) : target ∉ ids :=
  fun member => notHead (corridor.eq_head_of_edge consistent edge (.inr rfl) member)

/-- What leads to the corridor is redirected by putting one vertex in the place of all of it. -/
theorem redirect_eq {id : VertexId} (entry : id ∈ ids → id = head) (place : VertexId) :
    VertexId.redirect head place id = standIn ids place id := by
  unfold VertexId.redirect standIn
  split_ifs with isHead idIn idIn
  · rfl
  · exact absurd (isHead ▸ corridor.head_mem) idIn
  · exact absurd (entry idIn) isHead
  · rfl

end Corridor

/-- Outside the corridor the second graph is the first, save that what led to the corridor leads to
the given place. -/
structure Redirected (graph other : Graph) (ids : List VertexId) (head place : VertexId) :
    Prop where
  root : other.root = graph.root.map (VertexId.redirect head place)
  grid : other.grid = graph.grid
  vars : other.vars = graph.vars
  outer : ∀ {id vertex}, id ∉ ids → graph.vertex? id = some vertex →
    ∃ after, other.vertex? id = some after ∧ after.kind = vertex.kind ∧
      after.children = vertex.children.map (VertexId.redirect head place)

/-- Outside the corridor both programs are at the same vertex. The corridor is met at its head, and
the other program is then at the given place. -/
def redirecting (graph : Graph) (ids : List VertexId) (head place : VertexId) : Pairing :=
  fun id state twin twinState =>
    twin = standIn ids place id ∧ state.Similar twinState ∧ graph.contains id = true ∧
      (id ∈ ids → id = head)

theorem redirecting_of_edge (corridor : graph.Corridor ids head tail kinds)
    (consistent : graph.Consistent) {source next place : VertexId} {state twinState : State}
    (edge : next ∈ graph.children source) (outside : source ∉ ids ∨ source = tail)
    (similar : state.Similar twinState) :
    graph.redirecting ids head place next state (VertexId.redirect head place next) twinState := by
  have entry : next ∈ ids → next = head := corridor.eq_head_of_edge consistent edge outside
  exact ⟨corridor.redirect_eq entry place, similar, consistent.child_live edge, entry⟩

namespace Redirected

variable {place root : VertexId} (redirected : graph.Redirected other ids head place)
  (corridor : graph.Corridor ids head tail kinds) (consistent : graph.Consistent)

include redirected

theorem live {id : VertexId} (outside : id ∉ ids) (live : graph.contains id = true) :
    other.contains id = true := by
  rcases contains_iff.mp live with ⟨vertex, found⟩
  rcases redirected.outer outside found with ⟨after, afterFound, -⟩
  exact contains_iff.mpr ⟨after, afterFound⟩

theorem live_standIn (placeLive : other.contains place = true) {id : VertexId}
    (live : graph.contains id = true) : other.contains (standIn ids place id) = true := by
  by_cases idIn : id ∈ ids
  · rwa [standIn_of_mem idIn]
  · rw [standIn_of_not_mem idIn]
    exact redirected.live idIn live

include corridor

theorem start (start : graph.root = some root) : other.root = some (standIn ids place root) := by
  rw [redirected.root, start, Option.map_some, corridor.redirect_eq (corridor.root · start)]

include consistent

theorem edge_kept {source target : VertexId} (outside : source ∉ ids)
    (edge : target ∈ graph.children source) : standIn ids place target ∈ other.children source := by
  rcases contains_iff.mp (live_of_mem_children edge) with ⟨vertex, found⟩
  rcases redirected.outer outside found with ⟨after, afterFound, -, leads⟩
  rw [children_eq afterFound, leads, ← children_eq found, List.mem_map]
  exact ⟨target, edge,
    corridor.redirect_eq (corridor.eq_head_of_edge consistent edge (.inl outside)) _⟩

/-- What was reached is still reached, if the new place leads wherever the corridor led. -/
theorem reaches
    (exits : ∀ {exit}, exit ∈ graph.children tail → exit ∉ ids → other.edges.Reaches place exit)
    {source target : VertexId} (path : graph.edges.Reaches source target) :
    other.edges.Reaches (standIn ids place source) (standIn ids place target) := by
  refine path.map fun {source target} edge => ?_
  by_cases sourceIn : source ∈ ids
  · rw [standIn_of_mem sourceIn]
    by_cases targetIn : target ∈ ids
    · rw [standIn_of_mem targetIn]
      exact .refl _
    · rw [standIn_of_not_mem targetIn]
      by_cases isTail : source = tail
      · exact exits (isTail ▸ edge) targetIn
      · have noEdge := corridor.count_children_inner sourceIn isTail (.inl targetIn)
        exact absurd edge (List.count_eq_zero.mp noEdge)
  · rw [standIn_of_not_mem sourceIn]
    exact .step (redirected.edge_kept corridor consistent sourceIn edge) (.refl _)

/-- Outside the corridor both programs do the same. -/
theorem aligned_outside {id : VertexId} {state twinState : State} (outside : id ∉ ids)
    (live : graph.contains id = true) (similar : state.Similar twinState) :
    graph.Aligned other (graph.redirecting ids head place) id state id twinState := by
  rcases contains_iff.mp live with ⟨vertex, found⟩
  rcases redirected.outer outside found with ⟨after, afterFound, kind, leads⟩
  refine aligned_of_vertices _ found afterFound (consistent.fits found) leads ?_
    (fun drawn => ?_) ?_
  · rw [kind]
    exact similar.eventsKind _
  · rw [kind]
    exact (similar.edgeKind _ drawn).symm
  · intro next member
    rw [kind]
    exact redirecting_of_edge corridor consistent (children_eq found ▸ member) (.inl outside)
      (similar.runKind _)

/-- The programs behave alike if the corridor is aligned with what is in its place. -/
theorem behavesLike (rooted : graph.Rooted)
    (inner : ∀ {state twinState}, state.Similar twinState →
      graph.Aligned other (graph.redirecting ids head place) head state place twinState) :
    graph.BehavesLike other := by
  rcases rooted with ⟨root, start, live, -⟩
  have aligned {id state twin twinState}
      (pair : graph.redirecting ids head place id state twin twinState) :
      graph.Aligned other (graph.redirecting ids head place) id state twin twinState := by
    rcases pair with ⟨rfl, similar, idLive, entry⟩
    by_cases idIn : id ∈ ids
    · rw [standIn_of_mem idIn, entry idIn]
      exact inner similar
    · rw [standIn_of_not_mem idIn]
      exact redirected.aligned_outside corridor consistent idIn idLive similar
  refine behavesLike_of_aligned aligned start (redirected.start corridor start) fun input => ?_
  refine ⟨rfl, ?_, live, fun rootIn => corridor.root rootIn start⟩
  exact .of_eq (initialState_congr redirected.vars.symm redirected.grid.symm input)

end Redirected

end Graph

end StackFlow
