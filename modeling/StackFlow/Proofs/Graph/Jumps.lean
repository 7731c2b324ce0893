import Mathlib
import StackFlow.Proofs.Graph.Layout

/-!
# Where jumps lead

A layout follows the first edge of a vertex before any other, so the first child
of a vertex is placed right behind it unless it has been placed before. This holds
of every graph that can be laid out, valid or not. Behind a vertex that does not
branch a jump is written for its only edge, so no jump goes forward, and the branch
for a nonzero value goes forward by one position at most.

The invariant of the search is that a first successor which is not placed yet waits
in front of all others, and that only the node placed last can have such a one.
-/

namespace StackFlow

namespace Digraph

variable {α : Type} {graph : Digraph α} {placed waiting : List α}

/-- The first successor of each placed node stands right behind the node or earlier, except that the
first successor of the last node may wait in front. -/
def Prompt (graph : Digraph α) (placed waiting : List α) : Prop :=
  ∀ position node first, placed[position]? = some node → (graph.next node).head? = some first →
    (∃ place ≤ position + 1, placed[place]? = some first) ∨
      (position + 1 = placed.length ∧ waiting.head? = some first)

/-- A node in front that is placed already can be passed over. -/
theorem Prompt.skip {known : α} (prompt : graph.Prompt placed (known :: waiting))
    (member : known ∈ placed) : graph.Prompt placed waiting := by
  intro position node first here leads
  left
  rcases prompt position node first here leads with found | ⟨last, waits⟩
  · exact found
  · obtain rfl : known = first := by simpa using waits
    rcases List.getElem?_of_mem member with ⟨place, found⟩
    have inside : place < placed.length := (List.getElem?_eq_some_iff.mp found).1
    exact ⟨place, by omega, found⟩

/-- The node in front is placed, and its successors wait in front of the others. -/
theorem Prompt.place {fresh : α} (prompt : graph.Prompt placed (fresh :: waiting)) :
    graph.Prompt (placed ++ [fresh]) (graph.next fresh ++ waiting) := by
  intro position node first here leads
  rcases Nat.lt_or_ge position placed.length with inside | beyond
  · rw [List.getElem?_append_left inside] at here
    left
    rcases prompt position node first here leads with ⟨place, bound, found⟩ | ⟨last, waits⟩
    · have before : place < placed.length := (List.getElem?_eq_some_iff.mp found).1
      exact ⟨place, bound, by rw [List.getElem?_append_left before, found]⟩
    · obtain rfl : fresh = first := by simpa using waits
      exact ⟨position + 1, le_rfl, by simp [last]⟩
  · have last : position < (placed ++ [fresh]).length := (List.getElem?_eq_some_iff.mp here).1
    rw [List.length_append, List.length_singleton] at last
    obtain rfl : position = placed.length := by omega
    obtain rfl : fresh = node := by simpa using here
    exact .inr ⟨by simp, by rw [List.head?_append, leads, Option.some_or]⟩

variable [DecidableEq α]

theorem prompt_visit {done : List α} (prompt : graph.Prompt done.reverse waiting) :
    graph.Prompt (graph.visit .depthFirst done waiting) [] := by
  fun_induction visit graph .depthFirst done waiting with
  | case1 done => exact prompt
  | case2 done known waiting member ih => exact ih (prompt.skip (List.mem_reverse.mpr member))
  | case3 done fresh waiting absent ih =>
      apply ih
      rw [List.reverse_cons]
      exact prompt.place

/-- A search that follows paths to their end lists the first successor of a node right behind the
node, or earlier. -/
theorem exists_first_search (graph : Digraph α) (roots : List α) {position : Nat} {node first : α}
    (here : (graph.search .depthFirst roots)[position]? = some node)
    (leads : (graph.next node).head? = some first) :
    ∃ place ≤ position + 1, (graph.search .depthFirst roots)[place]? = some first := by
  have prompt : graph.Prompt (graph.search .depthFirst roots) [] := by
    apply prompt_visit
    intro position node first here
    cases here
  rcases prompt position node first here leads with found | ⟨-, waits⟩
  · exact found
  · cases waits

end Digraph

theorem forall₂_of_mapM_ok {ε α β : Type} {run : α → Except ε β} {items : List α} {results : List β}
    (all : items.mapM run = .ok results) :
    List.Forall₂ (fun item result => run item = .ok result) items results := by
  induction items generalizing results with
  | nil =>
      cases all
      exact .nil
  | cons item items ih =>
      rw [List.mapM_cons] at all
      rcases bind_eq_ok_iff.mp all with ⟨result, ran, goesOn⟩
      rcases bind_eq_ok_iff.mp goesOn with ⟨rest, others, same⟩
      cases same
      exact .cons ran (ih others)

namespace Transfer

/-- A jump leads to its own position or an earlier one, and the first target of a branch comes next
or earlier. -/
def GoesBack (position : Nat) : Transfer → Prop
  | .branch targets => ∀ first, targets.head? = some first → first ≤ position + 1
  | .jump target => target ≤ position
  | .halt | .runOn => True

theorem goesBack_ofTargets {kind : Kind} {position : Nat} {targets : List Nat}
    (near : ∀ first, targets.head? = some first → first ≤ position + 1) :
    (ofTargets kind position targets).GoesBack position := by
  unfold ofTargets
  split
  · exact near
  · trivial
  · rename_i next _
    split_ifs with follows
    · trivial
    · have bound := near next rfl
      change next ≤ position
      omega
  · trivial

end Transfer

namespace Graph

variable {graph : Graph} {layout : Layout} {position : Nat} {id : VertexId} {vertex : Vertex}

theorem head?_onward (found : graph.vertex? id = some vertex) :
    (graph.onwardEdges.next id).head? = vertex.children.head? := by
  change (graph.onward id).head? = _
  cases split : vertex.kind.isSplit <;> cases leads : vertex.children <;>
    simp [onward, found, split, leads]

/-- A layout is the search along the ways on from the root, which meets no handle without a
vertex. -/
theorem order_of_layout (laid : graph.layout = .ok layout) :
    ∃ root, graph.root = some root ∧ layout.order = graph.onwardEdges.search .depthFirst [root] ∧
      ∀ id ∈ layout.order, ∃ vertex, graph.vertex? id = some vertex := by
  unfold Graph.layout at laid
  split at laid
  · cases laid
  · rename_i root start
    dsimp only at laid
    split at laid
    · cases laid
    · rename_i known
      cases laid
      refine ⟨root, start, rfl, fun id member => ?_⟩
      rw [List.find?_eq_none] at known
      exact contains_iff.mp (by simpa using known id member)

theorem exists_child_of_head?_targets {targets : List Nat} {target : Nat}
    (found : graph.vertex? id = some vertex) (all : layout.targets graph id = .ok targets)
    (head : targets.head? = some target) :
    ∃ child, vertex.children.head? = some child ∧ layout.index? child = some target := by
  rcases bind_eq_ok_iff.mp all with ⟨same, isVertex, each⟩
  obtain rfl : vertex = same := Option.some.inj (found.symm.trans (vertex_eq_ok_iff.mp isVertex))
  have slots := forall₂_of_mapM_ok each
  cases leads : vertex.children with
  | nil =>
      rw [leads, List.forall₂_nil_left_iff] at slots
      simp [slots] at head
  | cons child others =>
      rw [leads, List.forall₂_cons_left_iff] at slots
      rcases slots with ⟨slot, rest, placed, -, rfl⟩
      obtain rfl : slot = target := by simpa using head
      refine ⟨child, rfl, ?_⟩
      split at placed <;> cases placed
      assumption

theorem renderAt_of_render {dialect : Dialect} {pieces : List String}
    (laid : graph.layout = .ok layout) (written : graph.render dialect = .ok pieces)
    (placed : layout.order[position]? = some id) :
    ∃ piece, pieces[position]? = some piece ∧
      graph.renderAt dialect layout position id = .ok piece := by
  rcases bind_eq_ok_iff.mp written with ⟨same, laidSame, all⟩
  obtain rfl : layout = same := Except.ok.inj (laid.symm.trans laidSame)
  have each := forall₂_of_mapM_ok all
  have length : layout.order.length = pieces.length := by simpa using each.length_eq
  rcases List.getElem?_eq_some_iff.mp placed with ⟨inside, here⟩
  have bound : position < pieces.length := length ▸ inside
  have entry := each.get (i := position) (by simpa using inside) bound
  simp only [List.get_eq_getElem, List.getElem_zipIdx, here, Nat.zero_add] at entry
  exact ⟨pieces[position], List.getElem?_eq_getElem bound, entry⟩

/-- In every graph that can be laid out, the first child of a vertex has a position, which is at
most the one behind the vertex. So a jump that is written behind a vertex leads to its own position
or an earlier one, and the first edge of a branch leads to the next position or an earlier one. -/
theorem layout_jumps_back (laid : graph.layout = .ok layout) :
    ∀ position id, layout.index? id = some position → ∃ vertex, graph.vertex? id = some vertex ∧
      (∀ first, vertex.children.head? = some first →
        ∃ place ≤ position + 1, layout.index? first = some place) ∧
      ∀ dialect pieces, graph.render dialect = .ok pieces →
        ∃ targets, layout.targets graph id = .ok targets ∧
          pieces[position]? =
            (Transfer.ofTargets vertex.kind position targets).write? dialect vertex.kind ∧
          (Transfer.ofTargets vertex.kind position targets).GoesBack position := by
  intro position id slot
  rcases order_of_layout laid with ⟨root, -, order, live⟩
  have nodup : layout.order.Nodup := order ▸ Digraph.nodup_search _ _ _
  have placed : layout.order[position]? = some id := (Layout.index?_eq_some_iff nodup).mp slot
  rcases live id (List.mem_of_getElem? placed) with ⟨vertex, found⟩
  have near (first : VertexId) (leads : vertex.children.head? = some first) :
      ∃ place ≤ position + 1, layout.index? first = some place := by
    have next : (graph.onwardEdges.next id).head? = some first := (head?_onward found).trans leads
    rcases Digraph.exists_first_search graph.onwardEdges [root] (order ▸ placed) next with
      ⟨place, bound, here⟩
    exact ⟨place, bound, (Layout.index?_eq_some_iff nodup).mpr (order ▸ here)⟩
  refine ⟨vertex, found, near, fun dialect pieces written => ?_⟩
  rcases renderAt_of_render laid written placed with ⟨piece, here, written⟩
  rcases (renderAt_eq_ok_iff found).mp written with ⟨targets, all, shape⟩
  refine ⟨targets, all, here.trans shape.symm, Transfer.goesBack_ofTargets fun target head => ?_⟩
  rcases exists_child_of_head?_targets found all head with ⟨child, leads, slot⟩
  rcases near child leads with ⟨place, bound, same⟩
  obtain rfl : place = target := Option.some.inj (same.symm.trans slot)
  exact bound

/-- No edge is recorded at its end, and the last vertex has two ways on although it does not
branch. -/
def looseEdges : Graph where
  slots := #[
    some { kind := .single .nop, children := [⟨1⟩] },
    some { kind := .decision, children := [⟨2⟩, ⟨3⟩] },
    some { kind := .single .dup, children := [⟨1⟩] },
    some { kind := .single .pop, children := [⟨2⟩, ⟨0⟩] }]
  root := some ⟨0⟩
  grid := .blank 0 0
  vars := #[]

/-- The third vertex jumps back to the second. -/
theorem layout_jumps_back_looseEdges :
    looseEdges.validate ≠ .ok () ∧ ∃ layout pieces,
      looseEdges.layout = .ok layout ∧ layout.index? ⟨2⟩ = some 2 ∧
      (∃ place ≤ 3, layout.index? ⟨1⟩ = some place) ∧ looseEdges.render .listing = .ok pieces ∧
      pieces[2]? = some "dup\ngoto 1" ∧
      ∃ targets, layout.targets looseEdges ⟨2⟩ = .ok targets ∧
        pieces[2]? = (Transfer.ofTargets (.single .dup) 2 targets).write? .listing (.single .dup) ∧
          (Transfer.ofTargets (.single .dup) 2 targets).GoesBack 2 := by
  have invalid : looseEdges.validate ≠ .ok () := by decide +kernel
  have laid : looseEdges.layout = .ok ⟨[⟨0⟩, ⟨1⟩, ⟨2⟩, ⟨3⟩]⟩ := by decide +kernel
  have written : looseEdges.render .listing =
      .ok ["nop", "if pop goto 2 else 3", "dup\ngoto 1", "pop"] := by
    decide +kernel
  rcases layout_jumps_back laid 2 ⟨2⟩ rfl with ⟨vertex, found, near, back⟩
  cases found
  exact ⟨invalid, _, _, laid, rfl, near ⟨1⟩ rfl, written, rfl, back .listing _ written⟩

end Graph

end StackFlow
