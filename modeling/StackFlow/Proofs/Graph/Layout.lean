import Mathlib
import StackFlow.Graph.Layout
import StackFlow.Proofs.Graph.Consistency

/-!
# Control flow in a layout

A layout is read as a list of positions, and each position ends in a transfer:
it names the positions it branches to, ends the program, jumps, or runs on into
the next position. `Transfer.write?` says for each kind of vertex how a dialect
writes it with such a transfer. It is shown that in the layout of a valid graph
the transfer of every position leads to the positions of the vertex's children,
in the order of its edges, and that the written text is the one for that transfer.

That nothing is missed rests on the shape of valid graphs: a vertex that does
not branch has at most one child, so the search along the ways on is a search
along all edges.
-/

namespace StackFlow

theorem exists_mapM_ok {ε α β : Type} {run : α → Except ε β} {Holds : α → β → Prop} {items : List α}
    (each : ∀ item ∈ items, ∃ result, run item = .ok result ∧ Holds item result) :
    ∃ results, items.mapM run = .ok results ∧ List.Forall₂ Holds items results := by
  induction items with
  | nil => exact ⟨[], rfl, .nil⟩
  | cons item items ih =>
      rcases each item List.mem_cons_self with ⟨result, ran, holds⟩
      rcases ih fun other member => each other (List.mem_cons_of_mem _ member) with
        ⟨results, rest, alike⟩
      refine ⟨result :: results, ?_, .cons holds alike⟩
      rw [List.mapM_cons, ran]
      exact bind_eq_ok_iff.mpr ⟨result, rfl, bind_eq_ok_iff.mpr ⟨results, rest, rfl⟩⟩

/-- What is done stays in front. -/
theorem Digraph.reverse_isPrefix_visit {α : Type} [DecidableEq α] (graph : Digraph α)
    (order : Order) (done waiting : List α) : done.reverse <+: graph.visit order done waiting := by
  fun_induction visit graph order done waiting with
  | case1 done => exact List.prefix_rfl
  | case2 done node waiting _ ih => exact ih
  | case3 done node waiting _ ih =>
      rw [List.reverse_cons] at ih
      exact (List.prefix_append _ _).trans ih

theorem Digraph.head?_search {α : Type} [DecidableEq α] (graph : Digraph α) (order : Order)
    (root : α) : (graph.search order [root]).head? = some root := by
  have start : graph.search order [root] =
      graph.visit order [root] (order.schedule (graph.next root) []) := by
    unfold search
    rw [visit]
    simp
  rcases graph.reverse_isPrefix_visit order [root] (order.schedule (graph.next root) []) with
    ⟨rest, shape⟩
  rw [start, ← shape]
  rfl

namespace Kind

variable {kind : Kind} {dialect : Dialect} {targets : List Nat}

/-- The text of a vertex that does not branch. -/
def straightText? (dialect : Dialect) : Kind → Option String
  | .single op => some (op.render dialect)
  | .block ops => some (dialect.block (ops.map (Op.render dialect)))
  | .decision | .exprDecision _ | .decisionBlock _ | .exprDecisionBlock _ _ | .random => none

/-- The text of a vertex that branches: the ops, and then the branch to the targets. A decision goes
to the first for a nonzero value and to the second for zero. -/
def branchText? (dialect : Dialect) : Kind → List Nat → Option String
  | .decision, [onTrue, onFalse] => some (dialect.decision onTrue onFalse)
  | .exprDecision test, [onTrue, onFalse] =>
    some (dialect.exprDecision (test.render dialect.toExprDialect) onTrue onFalse)
  | .decisionBlock ops, [onTrue, onFalse] =>
    some (dialect.block (ops.map (Op.render dialect) ++ [dialect.decision onTrue onFalse]))
  | .exprDecisionBlock ops test, [onTrue, onFalse] =>
    some (dialect.block (ops.map (Op.render dialect) ++
      [dialect.exprDecision (test.render dialect.toExprDialect) onTrue onFalse]))
  | .random, [first, second, third, fourth] => some (dialect.random [first, second, third, fourth])
  | _, _ => none

theorem render?_of_straight (straight : kind.isSplit = false) :
    kind.render? dialect targets = kind.straightText? dialect := by
  cases kind with
  | single op => rfl
  | block run => simp [render?, exit, Exit.render?, ops, isBlock, straightText?]
  | decision | exprDecision | decisionBlock | exprDecisionBlock | random => cases straight

theorem render?_of_split (split : kind.isSplit = true) :
    kind.render? dialect targets = kind.branchText? dialect targets := by
  cases kind with
  | single | block => cases split
  | decision | exprDecision | decisionBlock | exprDecisionBlock =>
      rcases targets with _ | ⟨onTrue, _ | ⟨onFalse, _ | ⟨third, others⟩⟩⟩ <;> rfl
  | random =>
      rcases targets with
        _ | ⟨first, _ | ⟨second, _ | ⟨third, _ | ⟨fourth, _ | ⟨fifth, others⟩⟩⟩⟩⟩ <;> rfl

theorem exists_straightText? (straight : kind.isSplit = false) (dialect : Dialect) :
    ∃ text, kind.straightText? dialect = some text := by
  cases kind with
  | single | block => exact ⟨_, rfl⟩
  | decision | exprDecision | decisionBlock | exprDecisionBlock | random => cases straight

/-- With as many targets as the kind has children a branch can be written. -/
theorem exists_branchText? {children : List VertexId} (split : kind.isSplit = true)
    (fits : kind.Fits children) (dialect : Dialect) (length : targets.length = children.length) :
    ∃ text, kind.branchText? dialect targets = some text := by
  cases kind with
  | single | block => cases split
  | decision | exprDecision | decisionBlock | exprDecisionBlock =>
      obtain ⟨onTrue, onFalse, rfl⟩ := List.length_eq_two.mp (length.trans fits)
      exact ⟨_, rfl⟩
  | random =>
      obtain ⟨first, second, third, fourth, rfl⟩ := List.length_eq_four.mp (length.trans fits)
      exact ⟨_, rfl⟩

end Kind

/-- How control leaves a position. -/
inductive Transfer where
  /-- To one of the positions named. -/
  | branch (targets : List Nat)
  /-- The program ends. -/
  | halt
  /-- To the position named. -/
  | jump (target : Nat)
  /-- To the next position, without a word. -/
  | runOn

namespace Transfer

/-- The positions that control can go to. -/
def targets (position : Nat) : Transfer → List Nat
  | .branch targets => targets
  | .halt => []
  | .jump target => [target]
  | .runOn => [position + 1]

def isBranch : Transfer → Bool
  | .branch _ => true
  | .halt | .jump _ | .runOn => false

/-- A vertex with its transfer as the dialect writes them. -/
def write? (dialect : Dialect) (kind : Kind) : Transfer → Option String
  | .branch targets => kind.branchText? dialect targets
  | .halt => (kind.straightText? dialect).map (· ++ "\n" ++ dialect.exit)
  | .jump target => (kind.straightText? dialect).map (· ++ "\n" ++ dialect.jump target)
  | .runOn => kind.straightText? dialect

/-- The transfer that is written for a vertex whose children stand at the given targets. -/
def ofTargets (kind : Kind) (position : Nat) (targets : List Nat) : Transfer :=
  match kind.isSplit, targets with
  | true, targets => .branch targets
  | false, [] => .halt
  | false, [next] => if next = position + 1 then .runOn else .jump next
  -- Several ways on without a branch: nothing is written for them.
  | false, _ => .runOn

theorem exists_write? {kind : Kind} {children : List VertexId} (fits : kind.Fits children)
    (dialect : Dialect) (position : Nat) {targets : List Nat}
    (length : targets.length = children.length) :
    ∃ piece, (ofTargets kind position targets).write? dialect kind = some piece := by
  cases split : kind.isSplit with
  | true => simpa [ofTargets, split, write?] using Kind.exists_branchText? split fits dialect length
  | false =>
      rcases Kind.exists_straightText? split dialect with ⟨text, written⟩
      rcases targets with _ | ⟨next, _ | ⟨second, others⟩⟩
      · simp [ofTargets, split, write?, written]
      · by_cases follows : next = position + 1 <;>
          simp [ofTargets, split, follows, write?, written]
      · simp [ofTargets, split, write?, written]

end Transfer

namespace Layout

variable {graph : Graph} {layout : Layout}

/-- The layout starts at the root and has every vertex once. -/
structure Covers (layout : Layout) (graph : Graph) : Prop where
  first : layout.order.head? = graph.root
  nodup : layout.order.Nodup
  complete : ∀ id, id ∈ layout.order ↔ graph.contains id = true

/-- The transfer takes the edges of the vertex at the position: a branch names its targets, and a
jump stands only where running on does not lead to the child. -/
structure Follows (layout : Layout) (graph : Graph) (position : Nat) (vertex : Vertex)
    (transfer : Transfer) : Prop where
  branches : transfer.isBranch = vertex.kind.isSplit
  leads : (transfer.targets position).map (layout.order[·]?) = vertex.children.map some
  jumps : ∀ target, transfer = .jump target → target ≠ position + 1
  runsOn : layout.runsOn graph position = true ↔ transfer = .runOn

theorem Follows.target_lt {position target : Nat} {vertex : Vertex} {transfer : Transfer}
    (follows : layout.Follows graph position vertex transfer)
    (member : target ∈ transfer.targets position) : target < layout.size := by
  have placed : layout.order[target]? ∈ vertex.children.map some := by
    rw [← follows.leads]
    exact List.mem_map_of_mem member
  rcases List.mem_map.mp placed with ⟨child, -, found⟩
  exact (List.getElem?_eq_some_iff.mp found.symm).1

theorem index?_eq_some_iff (nodup : layout.order.Nodup) {id : VertexId} {position : Nat} :
    layout.index? id = some position ↔ layout.order[position]? = some id := by
  unfold index?
  rw [List.idxOf?_eq_some_iff, List.getElem?_eq_some_iff]
  constructor
  · rintro ⟨inside, here, -⟩
    exact ⟨inside, here⟩
  · rintro ⟨inside, here⟩
    refine ⟨inside, here, ?_⟩
    intro earlier before again
    have same := nodup.getElem_inj_iff.mp (again.trans here.symm)
    omega

theorem Covers.exists_index? (covers : layout.Covers graph) {id : VertexId}
    (live : graph.contains id = true) : ∃ position, layout.index? id = some position :=
  Option.isSome_iff_exists.mp (List.isSome_idxOf?.mpr ((covers.complete id).mpr live))

/-- Every child of a vertex has a position, so its targets are found. -/
theorem Covers.exists_targets (covers : layout.Covers graph) (consistent : graph.Consistent)
    {id : VertexId} {vertex : Vertex} (found : graph.vertex? id = some vertex) :
    ∃ targets, layout.targets graph id = .ok targets ∧
      targets.map (layout.order[·]?) = vertex.children.map some := by
  have mapped : ∃ targets, layout.targets graph id = .ok targets ∧
      List.Forall₂ (fun child position => some child = layout.order[position]?)
        vertex.children targets := by
    rw [targets, Graph.vertex_eq_ok_iff.mpr found]
    apply exists_mapM_ok
    intro child member
    have live : graph.contains child = true :=
      consistent.child_live (Graph.children_eq found ▸ member)
    rcases covers.exists_index? live with ⟨position, placed⟩
    exact ⟨position, by rw [placed], ((index?_eq_some_iff covers.nodup).mp placed).symm⟩
  rcases mapped with ⟨targets, all, alike⟩
  refine ⟨targets, all, ?_⟩
  symm
  rw [← List.forall₂_eq_eq_eq, List.forall₂_map_left_iff, List.forall₂_map_right_iff]
  exact alike

theorem runsOn_iff {id : VertexId} {vertex : Vertex} {position : Nat}
    (placed : layout.order[position]? = some id) (found : graph.vertex? id = some vertex) :
    layout.runsOn graph position = true ↔
      vertex.kind.isSplit = false ∧ ∃ child, vertex.children = [child] ∧
        layout.index? child = some (position + 1) := by
  simp only [runsOn, placed, Option.bind_some, found]
  split
  · rename_i child straight leads
    simp [straight, leads]
  · rename_i others
    simp only [Bool.false_eq_true, false_iff]
    rintro ⟨straight, child, leads, -⟩
    exact others child straight leads

end Layout

namespace Graph

variable {graph : Graph} {layout : Layout}

theorem Consistent.length_children_le (consistent : graph.Consistent) {id : VertexId}
    {vertex : Vertex} (found : graph.vertex? id = some vertex)
    (straight : vertex.kind.isSplit = false) : vertex.children.length ≤ 1 := by
  have plain : vertex.kind.arity? = none := by simpa [Kind.isSplit] using straight
  simpa [Kind.Fits, plain] using consistent.fits found

theorem onwardEdges_eq (consistent : graph.Consistent) : graph.onwardEdges = graph.edges := by
  have same : graph.onward = graph.children := by
    funext id
    cases found : graph.vertex? id with
    | none => simp [onward, children, found]
    | some vertex =>
        cases split : vertex.kind.isSplit with
        | true => simp [onward, found, children_eq found, split]
        | false =>
            have few := consistent.length_children_le found split
            simp [onward, found, children_eq found, split, List.take_of_length_le few]
  simp only [onwardEdges, edges, same]

theorem exists_layout (valid : graph.Valid) :
    ∃ layout, graph.layout = .ok layout ∧ layout.Covers graph := by
  rcases valid_iff.mp valid with ⟨consistent, root, start, live, reached⟩
  have members (id : VertexId) : id ∈ graph.edges.search .depthFirst [root] ↔
      graph.contains id = true := by
    rw [Digraph.mem_search_iff]
    simp only [List.mem_singleton, exists_eq_left]
    exact ⟨fun path => consistent.reaches_live path live, reached id⟩
  have known : (graph.edges.search .depthFirst [root]).find? (!graph.contains ·) = none := by
    rw [List.find?_eq_none]
    intro id member
    simp [(members id).mp member]
  refine ⟨⟨graph.edges.search .depthFirst [root]⟩, ?_, ?_, ?_, members⟩
  · simp only [layout, start, onwardEdges_eq consistent, known]
  · rw [start]
    exact Digraph.head?_search _ _ _
  · exact Digraph.nodup_search _ _ _

/-- What is written at a position is the vertex with the transfer to the positions of its children.
This is so in every graph, valid or not. -/
theorem renderAt_eq_ok_iff {dialect : Dialect} {id : VertexId} {vertex : Vertex} {position : Nat}
    {piece : String} (found : graph.vertex? id = some vertex) :
    graph.renderAt dialect layout position id = .ok piece ↔
      ∃ targets, layout.targets graph id = .ok targets ∧
        (Transfer.ofTargets vertex.kind position targets).write? dialect vertex.kind =
          some piece := by
  simp only [renderAt, vertex_eq_ok_iff.mpr found, bind_eq_ok_iff, Except.ok.injEq, exists_eq_left']
  refine exists_congr fun targets => and_congr_right fun _ => ?_
  cases split : vertex.kind.isSplit with
  | true =>
      rw [Kind.render?_of_split split]
      cases text : vertex.kind.branchText? dialect targets <;>
        simp [Transfer.ofTargets, split, Transfer.write?, text]
  | false =>
      rcases Kind.exists_straightText? split dialect with ⟨text, written⟩
      rw [Kind.render?_of_straight split, written]
      rcases targets with _ | ⟨next, _ | ⟨second, others⟩⟩
      · simp [Transfer.ofTargets, split, Transfer.write?, written]
      · by_cases follows : next = position + 1 <;>
          simp [Transfer.ofTargets, split, follows, Transfer.write?, written]
      · simp [Transfer.ofTargets, split, Transfer.write?, written]

/-- A vertex with one way on leaves by the jump to its child, and needs none if the child comes
next. -/
theorem follows_of_child (covers : layout.Covers graph) {id child : VertexId} {vertex : Vertex}
    {position next : Nat} (placed : layout.order[position]? = some id)
    (found : graph.vertex? id = some vertex) (straight : vertex.kind.isSplit = false)
    (leads : vertex.children = [child]) (here : layout.order[next]? = some child) :
    layout.Follows graph position vertex (if next = position + 1 then .runOn else .jump next) := by
  have slot : layout.index? child = some next := (Layout.index?_eq_some_iff covers.nodup).mpr here
  have runsOn : layout.runsOn graph position = true ↔ next = position + 1 := by
    rw [Layout.runsOn_iff placed found]
    simp [straight, leads, slot]
  split
  · rename_i follows
    subst follows
    exact ⟨straight.symm, by simp [Transfer.targets, leads, here], by simp, by simp [runsOn]⟩
  · rename_i apart
    refine ⟨straight.symm, by simp [Transfer.targets, leads, here], ?_, by simp [runsOn, apart]⟩
    intro target same
    cases same
    exact apart

/-- The transfer to the positions of the children takes the edges of the vertex. -/
theorem follows_ofTargets (consistent : graph.Consistent) (covers : layout.Covers graph)
    {id : VertexId} {vertex : Vertex} {position : Nat} (placed : layout.order[position]? = some id)
    (found : graph.vertex? id = some vertex) {targets : List Nat}
    (leads : targets.map (layout.order[·]?) = vertex.children.map some) :
    layout.Follows graph position vertex (.ofTargets vertex.kind position targets) := by
  have runsOn := Layout.runsOn_iff placed found
  have length : targets.length = vertex.children.length := by
    simpa using congrArg List.length leads
  cases split : vertex.kind.isSplit with
  | true =>
      simp only [Transfer.ofTargets, split]
      exact ⟨split.symm, leads, by simp, by simp [runsOn, split]⟩
  | false =>
      have few := consistent.length_children_le found split
      match children : vertex.children, few with
      | [], _ =>
          rw [children] at length
          obtain rfl := List.eq_nil_of_length_eq_zero length
          simp only [Transfer.ofTargets, split]
          exact ⟨split.symm, by rw [children]; rfl, by simp, by simp [runsOn, children]⟩
      | [child], _ =>
          rw [children] at leads length
          obtain ⟨next, rfl⟩ := List.length_eq_one_iff.mp length
          simp only [Transfer.ofTargets, split]
          exact follows_of_child covers placed found split children (by simpa using leads)

/-- The text at a position is that of its vertex with a transfer along the vertex's edges. -/
theorem exists_renderAt (consistent : graph.Consistent) (covers : layout.Covers graph)
    (dialect : Dialect) {id : VertexId} {vertex : Vertex} {position : Nat}
    (placed : layout.order[position]? = some id) (found : graph.vertex? id = some vertex) :
    ∃ piece, graph.renderAt dialect layout position id = .ok piece ∧
      ∃ transfer, transfer.write? dialect vertex.kind = some piece ∧
        layout.Follows graph position vertex transfer := by
  rcases covers.exists_targets consistent found with ⟨targets, all, leads⟩
  have length : targets.length = vertex.children.length := by
    simpa using congrArg List.length leads
  rcases Transfer.exists_write? (consistent.fits found) dialect position length with
    ⟨piece, written⟩
  exact ⟨piece, (renderAt_eq_ok_iff found).mpr ⟨targets, all, written⟩, _, written,
    follows_ofTargets consistent covers placed found leads⟩

theorem exists_render (consistent : graph.Consistent) (laid : graph.layout = .ok layout)
    (covers : layout.Covers graph) (dialect : Dialect) :
    ∃ pieces, graph.render dialect = .ok pieces ∧ pieces.length = layout.size ∧
      ∀ position id vertex, layout.order[position]? = some id → graph.vertex? id = some vertex →
        ∃ transfer, pieces[position]? = transfer.write? dialect vertex.kind ∧
          layout.Follows graph position vertex transfer := by
  have each : ∀ entry ∈ layout.order.zipIdx, ∃ piece,
      graph.renderAt dialect layout entry.2 entry.1 = .ok piece ∧
      ∀ vertex, graph.vertex? entry.1 = some vertex → ∃ transfer : Transfer,
        transfer.write? dialect vertex.kind = some piece ∧
          layout.Follows graph entry.2 vertex transfer := by
    rintro ⟨id, position⟩ member
    have placed : layout.order[position]? = some id := List.mem_zipIdx_iff_getElem?.mp member
    have live := (covers.complete id).mp (List.mem_of_getElem? placed)
    rcases contains_iff.mp live with ⟨vertex, found⟩
    rcases exists_renderAt consistent covers dialect placed found with ⟨piece, written, transfer⟩
    refine ⟨piece, written, ?_⟩
    intro same again
    obtain rfl : same = vertex := Option.some.inj (again.symm.trans found)
    exact transfer
  rcases exists_mapM_ok each with ⟨pieces, all, alike⟩
  have length : layout.order.length = pieces.length := by simpa using alike.length_eq
  refine ⟨pieces, bind_eq_ok_iff.mpr ⟨layout, laid, all⟩, length.symm, ?_⟩
  intro position id vertex placed found
  rcases List.getElem?_eq_some_iff.mp placed with ⟨inside, here⟩
  have bound : position < pieces.length := length ▸ inside
  have entry := alike.get (i := position) (by simpa using inside) bound
  simp only [List.get_eq_getElem, List.getElem_zipIdx, here, Nat.zero_add] at entry
  rcases entry vertex found with ⟨transfer, written, follows⟩
  exact ⟨transfer, by rw [List.getElem?_eq_getElem bound, written], follows⟩

/-- The layout of a valid graph starts at the root, has every vertex once and finds it again, every
dialect can write it, and the transfer at each position leads to the positions of the vertex's
children, in the order of the edges and all within the layout. -/
theorem layout_follows_edges (valid : graph.validate = .ok ()) :
    ∃ layout, graph.layout = .ok layout ∧ layout.Covers graph ∧
      (∀ id position, layout.index? id = some position ↔ layout.order[position]? = some id) ∧
        ∀ dialect, ∃ pieces, graph.render dialect = .ok pieces ∧ pieces.length = layout.size ∧
          ∀ position id vertex, layout.order[position]? = some id → graph.vertex? id = some vertex →
            ∃ transfer, pieces[position]? = transfer.write? dialect vertex.kind ∧
              layout.Follows graph position vertex transfer ∧
                ∀ target ∈ transfer.targets position, target < layout.size := by
  rw [validate_eq_ok_iff] at valid
  rcases exists_layout valid with ⟨layout, laid, covers⟩
  refine ⟨layout, laid, covers, fun _ _ => Layout.index?_eq_some_iff covers.nodup, ?_⟩
  intro dialect
  rcases exists_render (valid_iff.mp valid).1 laid covers dialect with
    ⟨pieces, written, length, each⟩
  refine ⟨pieces, written, length, ?_⟩
  intro position id vertex placed found
  rcases each position id vertex placed found with ⟨transfer, piece, follows⟩
  exact ⟨transfer, piece, follows, fun _ => follows.target_lt⟩

/-- A branch whose ways meet again in a vertex that goes back to the branch. -/
def meetingBranches : Graph where
  slots := #[
    some { kind := .single .nop, children := [⟨1⟩] },
    some { kind := .decision, children := [⟨2⟩, ⟨3⟩], parents := [⟨0⟩, ⟨3⟩] },
    some { kind := .single .dup, children := [⟨3⟩], parents := [⟨1⟩] },
    some { kind := .single .pop, children := [⟨1⟩], parents := [⟨1⟩, ⟨2⟩] }]
  root := some ⟨0⟩
  grid := .blank 0 0
  vars := #[]

/-- The branch names the positions of its ways, the first of which runs on into the second. -/
theorem layout_follows_edges_meetingBranches :
    meetingBranches.validate = .ok () ∧ ∃ layout pieces, meetingBranches.layout = .ok layout ∧
      layout.order = [⟨0⟩, ⟨1⟩, ⟨2⟩, ⟨3⟩] ∧ meetingBranches.render .listing = .ok pieces ∧
      pieces = ["nop", "if pop goto 2 else 3", "dup", "pop\ngoto 1"] ∧
      ∃ transfer : Transfer,
        transfer.write? .listing .decision = some "if pop goto 2 else 3" ∧
          (transfer.targets 1).map (layout.order[·]?) = [some ⟨2⟩, some ⟨3⟩] := by
  have valid : meetingBranches.validate = .ok () := by decide +kernel
  have computed : meetingBranches.layout = .ok ⟨[⟨0⟩, ⟨1⟩, ⟨2⟩, ⟨3⟩]⟩ := by decide +kernel
  have text : meetingBranches.render .listing =
      .ok ["nop", "if pop goto 2 else 3", "dup", "pop\ngoto 1"] := by
    decide +kernel
  rcases layout_follows_edges valid with ⟨layout, laid, covers, -, writes⟩
  obtain rfl : layout = ⟨[⟨0⟩, ⟨1⟩, ⟨2⟩, ⟨3⟩]⟩ := Except.ok.inj (laid.symm.trans computed)
  rcases writes .listing with ⟨pieces, written, -, each⟩
  cases written.symm.trans text
  rcases each 1 ⟨1⟩ _ rfl rfl with ⟨transfer, piece, follows, -⟩
  exact ⟨valid, _, _, laid, rfl, text, rfl, transfer, piece.symm, follows.leads⟩

end Graph

end StackFlow
