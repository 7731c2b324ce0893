import Mathlib
import StackFlow.Proofs.Depth.Comparison
import StackFlow.Proofs.Rule.Application

/-!
# Rules and the depth of the stack

A replacement that costs less than a chain makes no path deeper. Where a path enters
the replacement, the old program could enter the chain at least as deep, and what is
left of the replacement gets no deeper than the whole chain. This is the invariant
on the way through the replacement.
-/

namespace StackFlow

namespace Graph

variable {graph other : Graph} {ids : List VertexId} {head tail : VertexId} {kinds : List Kind}

/-- The old program may be at the vertex, or it may run through the corridor where the new one is in
the middle of the path that has taken its place. -/
inductive Shadows (graph : Graph) (head : VertexId) (kinds others : List Kind) :
    VertexId → Nat → Prop
  | outside {id : VertexId} {depth : Nat} (old : id.index < graph.slots.size)
    (admits : graph.Admits id depth) :
      Shadows graph head kinds others id depth
  | inside {offset depth start : Nat} (admits : graph.Admits head start)
      (ends : depthThrough (others.drop offset) depth ≤ depthThrough kinds start)
      (rises : peakThrough (others.drop offset) depth ≤ peakThrough kinds start) :
      Shadows graph head kinds others ⟨graph.slots.size + offset⟩ depth

namespace Substituted

variable {nodes : List Node} (substituted : graph.Substituted other ids head tail nodes)
  (corridor : graph.Corridor ids head tail kinds) (consistent : graph.Consistent)
  (cheaper : Cheaper (nodes.map Node.kind) kinds)

include cheaper in
/-- What leads to the corridor leads to the start of the new path. -/
theorem shadows_redirect {id : VertexId} {depth : Nat} (live : graph.contains id = true)
    (admits : graph.Admits id depth) :
    graph.Shadows head kinds (nodes.map Node.kind)
      (VertexId.redirect head ⟨graph.slots.size⟩ id) depth := by
  by_cases isHead : id = head
  · subst isHead
    rw [VertexId.redirect, if_pos rfl, ← Nat.add_zero graph.slots.size]
    exact .inside admits (cheaper.depth depth) (cheaper.peak depth)
  · rw [VertexId.redirect, if_neg isHead]
    exact .outside (index_lt_of_live live) admits

include substituted corridor consistent cheaper

theorem shadows_child {id next : VertexId} {depth : Nat} {vertex : Vertex}
    (shadows : graph.Shadows head kinds (nodes.map Node.kind) id depth)
    (found : other.vertex? id = some vertex) (member : next ∈ vertex.children) :
    graph.Shadows head kinds (nodes.map Node.kind) next (vertex.kind.depthAfter depth) := by
  cases shadows with
  | outside old admits =>
      rw [substituted.old old] at found
      split_ifs at found
      rcases Option.map_eq_some_iff.mp found with ⟨before, foundBefore, rfl⟩
      rcases List.mem_map.mp member with ⟨target, edge, rfl⟩
      have onward := admits.child foundBefore edge
      exact shadows_redirect cheaper (consistent.child_live (children_eq foundBefore ▸ edge)) onward
  | @inside offset _ start admits ends rises =>
      rw [substituted.path.vertex, Option.map_eq_some_iff] at found
      rcases found with ⟨node, place, rfl⟩
      rcases List.getElem?_eq_some_iff.mp place with ⟨bound, rfl⟩
      rw [← List.map_drop, List.drop_eq_getElem_cons bound, List.map_cons] at ends rises
      dsimp only at member ⊢
      split_ifs at member with isLast
      · rcases List.mem_map.mp member with ⟨target, edge, rfl⟩
        rw [isLast, List.drop_length, List.map_nil] at ends
        apply shadows_redirect cheaper (consistent.child_live edge)
        exact (admits.through corridor.stretch edge).mono ends
      · rw [List.mem_singleton] at member
        rw [member, Nat.add_assoc]
        refine .inside admits ?_ ?_
        · rwa [← List.map_drop]
        · rw [← List.map_drop]
          exact (le_max_right _ _).trans rises

theorem shadows_of_enters (rooted : graph.Rooted) {path : List VertexId} {id : VertexId}
    {depth : Nat} (entered : other.Enters path id depth) :
    graph.Shadows head kinds (nodes.map Node.kind) id depth := by
  induction entered with
  | root isRoot =>
      rcases rooted with ⟨root, start, live, -⟩
      rw [substituted.root, start, Option.map_some, Option.some.injEq] at isRoot
      rw [← isRoot]
      exact shadows_redirect cheaper live (.start start)
  | child _ found member ih =>
      exact substituted.shadows_child corridor consistent cheaper ih found member

theorem noDeeper (rooted : graph.Rooted) : graph.NoDeeper other := by
  rintro peak ⟨path, id, vertex, depth, entered, found, rfl⟩
  cases substituted.shadows_of_enters corridor consistent cheaper rooted entered with
  | outside old admits =>
      rw [substituted.old old] at found
      split_ifs at found
      rcases Option.map_eq_some_iff.mp found with ⟨before, foundBefore, rfl⟩
      have peak := admits.peak foundBefore
      exact peak
  | @inside offset _ start admits ends rises =>
      rw [substituted.path.vertex, Option.map_eq_some_iff] at found
      rcases found with ⟨node, place, rfl⟩
      rcases List.getElem?_eq_some_iff.mp place with ⟨bound, rfl⟩
      rw [← List.map_drop, List.drop_eq_getElem_cons bound, List.map_cons] at rises
      rcases admits.peakThrough corridor.stretch with ⟨deeper, isDeeper, above⟩
      exact ⟨deeper, isDeeper, ((le_max_left _ _).trans rises).trans above⟩

end Substituted

theorem Bypassed.noDeeper {exit : VertexId} (bypassed : graph.Bypassed other ids head tail exit)
    (corridor : graph.Corridor ids head tail kinds) (cheaper : Cheaper [] kinds) :
    graph.NoDeeper other := by
  have skips {id : VertexId} {depth : Nat} (admits : graph.Admits id depth) :
      graph.Admits (VertexId.redirect head exit id) depth := by
    unfold VertexId.redirect
    split_ifs with isHead
    · subst isHead
      exact (admits.through corridor.stretch (by simp [bypassed.leads])).mono (cheaper.depth depth)
    · exact admits
  have admits {path id depth} (entered : other.Enters path id depth) : graph.Admits id depth := by
    induction entered with
    | root isRoot =>
        rw [bypassed.root, Option.map_eq_some_iff] at isRoot
        rcases isRoot with ⟨root, start, rfl⟩
        exact skips (.start start)
    | child _ found member ih =>
        rcases bypassed.vertex_before found with ⟨-, before, foundBefore, kind, leads⟩
        rw [leads, List.mem_map] at member
        rcases member with ⟨target, edge, rfl⟩
        rw [kind]
        exact skips (ih.child foundBefore edge)
  rintro peak ⟨path, id, vertex, depth, entered, found, rfl⟩
  rcases bypassed.vertex_before found with ⟨-, before, foundBefore, kind, -⟩
  rw [kind]
  exact (admits entered).peak foundBefore

theorem Replaced.noDeeper {replacement : Replacement}
    (replaced : graph.Replaced other ids head tail replacement) (valid : graph.Valid)
    (corridor : graph.Corridor ids head tail kinds)
    (cheaper : Cheaper (replacement.toList.map Node.kind) kinds) : graph.NoDeeper other := by
  rcases valid_iff.mp valid with ⟨consistent, rooted⟩
  cases replaced with
  | bypass bypassed => exact bypassed.noDeeper corridor cheaper
  | nodes _ substituted => exact substituted.noDeeper corridor consistent cheaper rooted

/-- Paths through a copy are as deep as those through what it is a copy of. -/
theorem Unshared.noDeeper {chain : Chain} (unshared : graph.Unshared other chain)
    (inside : chain.In graph) (valid : graph.Valid) : graph.NoDeeper other := by
  rcases valid_iff.mp valid with ⟨consistent, start, isStart, live, -⟩
  have root : other.root = graph.root := by
    rcases unshared with rfl | ⟨_, _, _, _, _, extracted⟩
    · rfl
    · exact extracted.root
  rcases unshared.exists_origin inside consistent with ⟨rename, stays, view⟩
  refine noDeeper_of_rename rename ?_ ?_
  · intro root' isRoot
    rw [root, isStart, Option.some.injEq] at isRoot
    rw [← isRoot, stays live, isStart]
  · intro id vertex found
    rcases view found with ⟨before, foundBefore, kind, children⟩
    refine ⟨before, foundBefore, fun depth => by rw [kind], fun depth => by rw [kind], ?_⟩
    intro next member
    rw [← children]
    exact List.mem_map_of_mem member

end Graph

namespace Rule

variable {rule : Rule} {graph other : Graph}

theorem Fires.noDeeper {chain : Chain} {nodes : List Node} (reliable : rule.Reliable)
    (valid : graph.Valid) (fires : rule.Fires graph other chain nodes) : graph.NoDeeper other := by
  rcases fires.exists_cheaper reliable with
    ⟨replacement, ⟨between, ids, isolated, replaced⟩, cheaper⟩
  have copied := isolated.unshared.noDeeper fires.inside valid
  exact copied.trans (replaced.noDeeper isolated.valid isolated.corridor cheaper)

theorem scan_noDeeper (reliable : rule.Reliable) (valid : graph.Valid) :
    graph.NoDeeper (rule.scan graph).graph := by
  apply rule.scan_keeps _ valid (.refl graph)
  intro reached changed chain nodes reachedValid shallow fires
  exact shallow.trans (fires.noDeeper reliable reachedValid)

end Rule

end StackFlow
