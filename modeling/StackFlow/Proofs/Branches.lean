import Mathlib
import StackFlow.Branches
import StackFlow.Proofs.Behaviour.Simulation
import StackFlow.Proofs.Expr.Meaning
import StackFlow.Proofs.Graph.Unreachable

/-!
# Folded branches

A fold changes one vertex, so that it leaves by other edges but to the same
places, up to a vertex that is merged with its twin. What it leaves behind is
consistent, though it may hold vertices that the root no longer reaches, and it
behaves as before as long as it still holds the root. At the end of the pass the
unreachable vertices go.

The twin that goes is entered from a decision only, but nothing asks whether the
program starts there. If it does, nothing can be reached any more and no vertex is
left at the end. So the pass keeps a graph valid only if no decision leads to its
root, or if the root is not the twin that goes.
-/

namespace StackFlow

theorem Kind.unnegated?_spec {kind other : Kind} (found : kind.unnegated? = some other) :
    ∃ operand, other.ops = kind.ops ∧ kind.exit = .tested (.not operand) ∧
      other.exit = .tested operand := by
  unfold unnegated? at found
  split at found
  · cases found
    exact ⟨_, rfl, rfl, rfl⟩
  · cases found
    exact ⟨_, rfl, rfl, rfl⟩
  · cases found

/-- The straight vertex does what the branch does before it branches. -/
theorem Kind.collapsed?_spec {kind straight : Kind} (found : kind.collapsed? = some straight) :
    straight.exit = .next ∧ (∀ state, straight.run state = kind.run state) ∧
      (∀ state, straight.events state = kind.events state) ∧ straight.vars ⊆ kind.vars := by
  cases kind <;> cases found
  case decisionBlock ops =>
    refine ⟨rfl, fun state => ?_, fun state => ?_, fun var => ?_⟩
    · exact state.run_append ops [.pop]
    · exact (state.events_append ops [.pop]).trans (List.append_nil _)
    · simp only [mem_vars, Kind.ops, test?, exit, List.mem_append, List.mem_singleton]
      rintro (⟨op, member | rfl, occurs⟩ | tested)
      · exact .inl ⟨op, member, occurs⟩
      · simp [Op.vars, Op.ownVariable, Op.expressions] at occurs
      · exact .inr tested
  case exprDecisionBlock ops test =>
    refine ⟨rfl, fun _ => rfl, fun _ => rfl, fun var => ?_⟩
    simp only [mem_vars, Kind.ops]
    rintro (occurs | ⟨_, tested, -⟩)
    · exact .inl occurs
    · cases tested
  all_goals
    exact ⟨rfl, fun _ => rfl, fun _ => rfl,
      fun var => by simp [Op.vars, Op.ownVariable, Op.expressions]⟩

theorem Kind.arity?_of_isDecision {kind : Kind} (decision : kind.isDecision = true) :
    kind.arity? = some 2 := by
  unfold isDecision at decision
  unfold arity?
  cases exit : kind.exit <;> simp_all [Exit.arity?]

/-- What the kind of a branch becomes by a fold. -/
def Kind.FoldsTo (kind other : Kind) : Prop :=
  kind.collapsed? = some other ∨ kind.unnegated? = some other

theorem count_eraseTimes {α : Type} [DecidableEq α] (element other : α) (times : Nat)
    (list : List α) :
    (eraseTimes element times list).count other =
      if other = element then list.count element - times else list.count other := by
  induction times generalizing list with
  | zero => by_cases same : other = element <;> simp [eraseTimes, same]
  | succ times ih =>
      rw [eraseTimes, ih]
      by_cases same : other = element
      · simp only [if_pos same, List.count_erase_self]
        omega
      · simp only [if_neg same, List.count_erase_of_ne same]

namespace Graph

variable {graph other : Graph}

/-- A decision leads to the vertex. -/
def Chosen (graph : Graph) (id : VertexId) : Prop :=
  ∃ link ∈ graph.vertices, link.2.kind.isDecision = true ∧ id ∈ link.2.children

instance (graph : Graph) (id : VertexId) : Decidable (graph.Chosen id) :=
  inferInstanceAs
    (Decidable (∃ link ∈ graph.vertices, link.2.kind.isDecision = true ∧ id ∈ link.2.children))

theorem chosen_iff {id : VertexId} :
    graph.Chosen id ↔
      ∃ source vertex, graph.vertex? source = some vertex ∧ vertex.kind.isDecision = true ∧
        id ∈ vertex.children := by
  simp [Chosen, mem_vertices]

/-- What a fold leaves behind: a consistent graph without new vertices or choices that behaves as
before unless the root is gone. Only a vertex that a decision leads to can go. -/
structure Folds (graph other : Graph) : Prop where
  consistent : other.Consistent
  declared : graph.Declared → other.Declared
  root : other.root = graph.root
  shrinks : ∀ {id}, other.contains id = true → graph.contains id = true
  chosen : ∀ {id}, other.Chosen id → graph.Chosen id
  spares : ∀ {id}, graph.contains id = true → other.contains id = false → graph.Chosen id
  alike : ∀ {root}, graph.root = some root → other.contains root = true → graph.BehavesLike other

/-- A vertex beside the one it is renamed to, in the same state. -/
def relabelling (graph : Graph) (rename : VertexId → VertexId) : Pairing :=
  fun id state twin twinState =>
    twin = rename id ∧ twinState = state ∧ graph.contains id = true

/-- The programs behave alike if all vertices but one are the same up to the renaming, and the one
leaves by other edges to the same places. -/
theorem behavesLike_of_rename (rename : VertexId → VertexId) (consistent : graph.Consistent)
    {root id : VertexId} {vertex folded : Vertex} (start : graph.root = some root)
    (live : graph.contains root = true) (sameRoot : other.root = some (rename root))
    (vars : other.vars = graph.vars) (grid : other.grid = graph.grid)
    (others : ∀ {source before}, source ≠ id → graph.vertex? source = some before →
      ∃ after, other.vertex? (rename source) = some after ∧ after.kind = before.kind ∧
      after.children = before.children.map rename)
    (found : graph.vertex? id = some vertex) (foldedFound : other.vertex? (rename id) = some folded)
    (events : ∀ state, folded.kind.events state = vertex.kind.events state)
    (run : ∀ state, folded.kind.run state = vertex.kind.run state)
    (childless : vertex.children = [] ↔ folded.children = [])
    (forth : ∀ {state drawn next}, vertex.children[vertex.kind.edge drawn state]? = some next →
      ∃ twinDrawn, folded.children[folded.kind.edge twinDrawn state]? = some (rename next))
    (back : ∀ {state twinDrawn twinNext},
      folded.children[folded.kind.edge twinDrawn state]? = some twinNext →
      ∃ drawn next, vertex.children[vertex.kind.edge drawn state]? = some next ∧
      twinNext = rename next) : graph.BehavesLike other := by
  have aligned {source state twin twinState}
      (pair : graph.relabelling rename source state twin twinState) :
      graph.Aligned other (graph.relabelling rename) source state twin twinState := by
    rcases pair with ⟨rfl, rfl, sourceLive⟩
    by_cases isFolded : source = id
    · subst isFolded
      have childLive {drawn next}
          (moves : vertex.children[vertex.kind.edge drawn twinState]? = some next) :
          graph.contains next = true :=
        consistent.child_live (children_eq found ▸ List.mem_of_getElem? moves)
      refine ⟨_, _, _, _, .last found, .last foldedFound, ?_, childless,
        (consistent.fits found).leaves _, ?_, ?_⟩
      · simp [events]
      · intro drawn next moves
        rcases forth moves with ⟨twinDrawn, twinMoves⟩
        exact ⟨twinDrawn, rename next, twinMoves, rfl, run _, childLive moves⟩
      · intro twinDrawn twinNext twinMoves
        rcases back twinMoves with ⟨drawn, next, moves, rfl⟩
        exact ⟨drawn, next, moves, rfl, run _, childLive moves⟩
    · rcases contains_iff.mp sourceLive with ⟨before, beforeFound⟩
      rcases others isFolded beforeFound with ⟨after, afterFound, kind, children⟩
      refine aligned_of_vertices rename beforeFound afterFound (consistent.fits beforeFound)
        children (by rw [kind]) (fun drawn => by rw [kind]) ?_
      intro next member
      rw [kind]
      exact ⟨rfl, rfl, consistent.child_live (children_eq beforeFound ▸ member)⟩
  exact behavesLike_of_aligned aligned start sameRoot fun input =>
    ⟨rfl, initialState_congr vars grid input, live⟩

/-- In the second graph the branch at `id` goes straight on to one of its children. -/
structure Collapsed (graph other : Graph) (id : VertexId) (vertex : Vertex) (straight : Kind)
    (keep : VertexId) : Prop where
  root : other.root = graph.root
  vars : other.vars = graph.vars
  grid : other.grid = graph.grid
  found : graph.vertex? id = some vertex
  kind : vertex.kind.collapsed? = some straight
  member : keep ∈ vertex.children
  view : ∀ source, other.vertex? source = (graph.vertex? source).map fun before =>
    { before with
      kind := if source = id then straight else before.kind
      children := if source = id then [keep] else before.children
      parents := eraseTimes id ((vertex.children.erase keep).count source) before.parents }

theorem collapsed_of_collapse? {id keep : VertexId} {vertex : Vertex}
    (found : graph.vertex? id = some vertex) (member : keep ∈ vertex.children)
    (result : graph.collapse? id vertex keep = .ok (some other)) :
    ∃ straight, graph.Collapsed other id vertex straight keep := by
  unfold collapse? at result
  cases collapsed : vertex.kind.collapsed? with
  | none => simp [collapsed] at result
  | some straight =>
      simp only [collapsed] at result
      split at result
      · cases result
      · cases result
        refine ⟨straight, rfl, rfl, rfl, found, collapsed, member, ?_⟩
        intro source
        rw [vertex?_mapVertices]
        cases graph.vertex? source with
        | none => rfl
        | some before => by_cases same : source = id <;> simp [same]

namespace Collapsed

variable {id keep : VertexId} {vertex : Vertex} {straight : Kind}
  (collapsed : graph.Collapsed other id vertex straight keep)

include collapsed

theorem children (source : VertexId) :
    other.children source = if source = id then [keep] else graph.children source := by
  unfold Graph.children
  rw [collapsed.view]
  by_cases same : source = id
  · simp [same, collapsed.found]
  · cases graph.vertex? source <;> simp [same]

theorem parents (target : VertexId) :
    other.parents target =
      eraseTimes id ((vertex.children.erase keep).count target) (graph.parents target) := by
  have erased (times : Nat) : eraseTimes id times ([] : List VertexId) = [] := by
    induction times with
    | zero => rfl
    | succ times ih => simpa [eraseTimes] using ih
  unfold Graph.parents
  rw [collapsed.view]
  cases graph.vertex? target <;> simp [erased]

theorem view_before {source : VertexId} {after : Vertex}
    (found : other.vertex? source = some after) :
    ∃ before, graph.vertex? source = some before ∧ after.children.Subperm before.children ∧
      (source = id → before.kind.FoldsTo after.kind) ∧
        (source ≠ id → after.kind = before.kind) := by
  rw [collapsed.view, Option.map_eq_some_iff] at found
  rcases found with ⟨before, foundBefore, rfl⟩
  refine ⟨before, foundBefore, ?_, ?_, ?_⟩
  · by_cases same : source = id
    · subst same
      cases collapsed.found.symm.trans foundBefore
      simpa using collapsed.member
    · simpa [same] using List.Subperm.refl before.children
  · rintro rfl
    cases collapsed.found.symm.trans foundBefore
    simpa [Kind.FoldsTo] using Or.inl collapsed.kind
  · intro apart
    simp [apart]

theorem consistent (consistent : graph.Consistent) : other.Consistent := by
  refine ⟨?_, ?_⟩
  · intro source target
    rw [collapsed.children, collapsed.parents, count_eraseTimes]
    split_ifs with same
    · have before := consistent.mirrored id target
      rw [children_eq collapsed.found] at before
      rw [← before]
      by_cases isKept : target = keep
      · have positive := List.count_pos_iff.mpr collapsed.member
        rw [isKept, List.count_erase_self, List.count_singleton_self]
        omega
      · rw [List.count_erase_of_ne isKept, Nat.sub_self, List.count_eq_zero, List.mem_singleton]
        exact isKept
    · exact consistent.mirrored source target
  · intro source after found
    rw [collapsed.view, Option.map_eq_some_iff] at found
    rcases found with ⟨before, foundBefore, rfl⟩
    by_cases same : source = id
    · have plain : straight.arity? = none := by
        simp [Kind.arity?, (Kind.collapsed?_spec collapsed.kind).1, Exit.arity?]
      simp [same, Kind.Fits, plain]
    · simpa [same] using consistent.fits foundBefore

theorem declared (declared : graph.Declared) : other.Declared := by
  rw [declared_iff] at declared ⊢
  intro source after found var occurs
  rw [collapsed.view, Option.map_eq_some_iff] at found
  rcases found with ⟨before, foundBefore, rfl⟩
  rw [collapsed.vars]
  by_cases same : source = id
  · simp only [if_pos same] at occurs
    exact declared id vertex collapsed.found var
      ((Kind.collapsed?_spec collapsed.kind).2.2.2 occurs)
  · simp only [if_neg same] at occurs
    exact declared source before foundBefore var occurs

theorem contains_eq (source : VertexId) : other.contains source = graph.contains source := by
  simp [contains, collapsed.view]

theorem chosen {target : VertexId} (chosen : other.Chosen target) : graph.Chosen target := by
  rcases chosen_iff.mp chosen with ⟨source, after, afterFound, decides, leads⟩
  rw [collapsed.view, Option.map_eq_some_iff] at afterFound
  rcases afterFound with ⟨before, beforeFound, rfl⟩
  by_cases same : source = id
  · simp [same, Kind.isDecision, (Kind.collapsed?_spec collapsed.kind).1] at decides
  · simp only [if_neg same] at decides leads
    exact chosen_iff.mpr ⟨source, before, beforeFound, decides, leads⟩

/-- A branch that always takes the kept edge can be collapsed. -/
theorem folds (consistent : graph.Consistent)
    (goes : ∀ {state drawn next}, vertex.children[vertex.kind.edge drawn state]? = some next →
      next = keep) : graph.Folds other := by
  refine ⟨collapsed.consistent consistent, collapsed.declared, collapsed.root, ?_,
    collapsed.chosen, ?_, ?_⟩
  · intro source live
    rwa [collapsed.contains_eq] at live
  · intro source live gone
    simp [collapsed.contains_eq, live] at gone
  · intro root start live
    rw [collapsed.contains_eq] at live
    rcases Kind.collapsed?_spec collapsed.kind with ⟨exit, run, events, -⟩
    have foldedFound := collapsed.view id
    rw [collapsed.found, Option.map_some] at foldedFound
    have nonempty : vertex.children ≠ [] := List.ne_nil_of_mem collapsed.member
    rw [if_pos rfl, if_pos rfl] at foldedFound
    refine behavesLike_of_rename (fun source => source) consistent start live
      (collapsed.root.trans start) collapsed.vars collapsed.grid ?_ collapsed.found foldedFound
      events run (by simpa using nonempty) ?_ ?_
    · intro source before apart foundBefore
      refine ⟨_, by rw [collapsed.view, foundBefore, Option.map_some], ?_, ?_⟩ <;> simp [apart]
    · intro state drawn next moves
      refine ⟨0, ?_⟩
      simp [goes moves, Kind.edge_of_next exit]
    · intro state twinDrawn twinNext twinMoves
      rcases (consistent.fits collapsed.found).leaves state with childless | ⟨drawn, next, moves⟩
      · exact absurd childless nonempty
      · refine ⟨drawn, next, moves, ?_⟩
        simp only [Kind.edge_of_next exit, List.getElem?_cons_zero, Option.some.injEq] at twinMoves
        rw [goes moves, ← twinMoves]

end Collapsed

/-- In the second graph the vertex at `id` tests the operand of a negation, and its edges are
exchanged. -/
structure Unnegated (graph other : Graph) (id : VertexId) (vertex : Vertex) (kind : Kind)
    (onTrue onFalse : VertexId) : Prop where
  root : other.root = graph.root
  vars : other.vars = graph.vars
  grid : other.grid = graph.grid
  found : graph.vertex? id = some vertex
  negation : vertex.kind.unnegated? = some kind
  children : vertex.children = [onTrue, onFalse]
  view : ∀ source, other.vertex? source = (graph.vertex? source).map fun before =>
    if source = id then { before with kind := kind, children := [onFalse, onTrue] } else before

namespace Unnegated

variable {id onTrue onFalse : VertexId} {vertex : Vertex} {kind : Kind}
  (unnegated : graph.Unnegated other id vertex kind onTrue onFalse)

include unnegated

theorem view_folded :
    other.vertex? id = some { vertex with kind := kind, children := [onFalse, onTrue] } := by
  simp [unnegated.view, unnegated.found]

theorem view_other {source : VertexId} (apart : source ≠ id) :
    other.vertex? source = graph.vertex? source := by
  simp [unnegated.view, apart]

theorem consistent (consistent : graph.Consistent) : other.Consistent := by
  rcases Kind.unnegated?_spec unnegated.negation with ⟨operand, ops, exit, exitAfter⟩
  have parents (target : VertexId) : other.parents target = graph.parents target := by
    by_cases same : target = id
    · simp [Graph.parents, same, unnegated.view_folded, unnegated.found]
    · simp [Graph.parents, unnegated.view_other same]
  refine ⟨?_, ?_⟩
  · intro source target
    rw [parents, ← consistent.mirrored]
    by_cases same : source = id
    · rw [same, children_eq unnegated.view_folded, children_eq unnegated.found, unnegated.children]
      exact (List.Perm.swap onTrue onFalse []).count_eq target
    · simp [Graph.children, unnegated.view_other same]
  · intro source after afterFound
    by_cases same : source = id
    · rw [same, unnegated.view_folded] at afterFound
      cases afterFound
      simp [Kind.Fits, Kind.arity?, exitAfter, Exit.arity?]
    · rw [unnegated.view_other same] at afterFound
      exact consistent.fits afterFound

theorem declared (declared : graph.Declared) : other.Declared := by
  rcases Kind.unnegated?_spec unnegated.negation with ⟨operand, ops, exit, exitAfter⟩
  rw [declared_iff] at declared ⊢
  intro source after afterFound var occurs
  rw [unnegated.vars]
  by_cases same : source = id
  · rw [same, unnegated.view_folded] at afterFound
    cases afterFound
    apply declared id vertex unnegated.found var
    rw [Kind.mem_vars] at occurs ⊢
    simpa [ops, Kind.test?, exit, exitAfter, Expr.vars] using occurs
  · rw [unnegated.view_other same] at afterFound
    exact declared source after afterFound var occurs

theorem chosen {target : VertexId} (chosen : other.Chosen target) : graph.Chosen target := by
  rcases Kind.unnegated?_spec unnegated.negation with ⟨operand, -, exit, -⟩
  rcases chosen_iff.mp chosen with ⟨source, after, afterFound, decides, leads⟩
  by_cases same : source = id
  · rw [same, unnegated.view_folded] at afterFound
    cases afterFound
    refine chosen_iff.mpr ⟨id, vertex, unnegated.found, by simp [Kind.isDecision, exit], ?_⟩
    simpa [unnegated.children, or_comm] using leads
  · rw [unnegated.view_other same] at afterFound
    exact chosen_iff.mpr ⟨source, after, afterFound, decides, leads⟩

theorem folds (consistent : graph.Consistent) : graph.Folds other := by
  rcases Kind.unnegated?_spec unnegated.negation with ⟨operand, ops, exit, exitAfter⟩
  have sameContents (source : VertexId) : other.contains source = graph.contains source := by
    simp [contains, unnegated.view]
  have moves (state : State) (drawn : Nat) :
      [onFalse, onTrue][kind.edge drawn state]? =
        [onTrue, onFalse][vertex.kind.edge drawn state]? := by
    simp only [Kind.edge, ops, exit, exitAfter, Exit.edge, Expr.eval]
    split_ifs <;> simp_all
  refine ⟨unnegated.consistent consistent, unnegated.declared, unnegated.root, ?_,
    unnegated.chosen, ?_, ?_⟩
  · intro source live
    rwa [sameContents] at live
  · intro source live gone
    simp [sameContents, live] at gone
  · intro root start live
    rw [sameContents] at live
    refine behavesLike_of_rename (fun source => source) consistent start live
      (unnegated.root.trans start) unnegated.vars unnegated.grid ?_ unnegated.found
      unnegated.view_folded ?_ ?_ (by simp [unnegated.children]) ?_ ?_
    · intro source before apart beforeFound
      exact ⟨before, by rw [unnegated.view_other apart, beforeFound], rfl, by simp⟩
    · intro state
      simp only [Kind.events, ops]
    · intro state
      simp only [Kind.run, ops, exit, exitAfter, Exit.run]
    · intro state drawn next leaves
      refine ⟨drawn, ?_⟩
      rw [moves, ← unnegated.children, leaves]
    · intro state drawn next leaves
      refine ⟨drawn, next, ?_, rfl⟩
      rw [unnegated.children, ← moves, leaves]

end Unnegated

/-- Two twins: they are entered from the branch at `id` only, do the same and lead to the same
vertex. -/
structure Twins (graph : Graph) (id onTrue onFalse next : VertexId) (vertex first second : Vertex) :
    Prop where
  found : graph.vertex? id = some vertex
  decision : vertex.kind.isDecision = true
  children : vertex.children = [onTrue, onFalse]
  firstFound : graph.vertex? onTrue = some first
  secondFound : graph.vertex? onFalse = some second
  kind : first.kind = second.kind
  firstLeads : first.children = [next]
  secondLeads : second.children = [next]
  entry : second.parents = [id]
  apart : onTrue ≠ onFalse
  trueApart : onTrue ≠ id
  falseApart : onFalse ≠ id
  nextApart : next ≠ onFalse

theorem twins_of_rejoin? (consistent : graph.Consistent) {id onTrue onFalse next : VertexId}
    {vertex first second : Vertex} {rest : List VertexId} (found : graph.vertex? id = some vertex)
    (decision : vertex.kind.isDecision = true)
    (children : vertex.children = onTrue :: onFalse :: rest) (apart : onTrue ≠ onFalse)
    (firstFound : graph.vertex? onTrue = some first)
    (secondFound : graph.vertex? onFalse = some second)
    (rejoins : rejoin? id onTrue onFalse first second = some next) :
    graph.Twins id onTrue onFalse next vertex first second := by
  have branches := Kind.arity?_of_isDecision decision
  have split : vertex.kind.isSplit = true := by simp [Kind.isSplit, branches]
  have two : rest = [] := by
    have fits := consistent.fits found
    simpa [Kind.Fits, branches, children] using fits
  unfold rejoin? at rejoins
  split at rejoins
  · rename_i target leads
    split_ifs at rejoins with accepted
    · cases rejoins
      simp only [isDetour, Bool.and_eq_true, decide_eq_true_eq, Bool.not_eq_eq_eq_not,
        Bool.not_true, ne_eq] at accepted
      rcases accepted with
        ⟨⟨⟨⟨⟨⟨-, firstStraight⟩, -⟩, ⟨entry, secondStraight⟩, secondLeads⟩, kind⟩, -⟩, nextApart⟩
      refine ⟨found, decision, by rw [children, two], firstFound, secondFound, kind, leads,
        secondLeads, entry, apart, ?_, ?_, nextApart⟩
      · rintro rfl
        rw [found, Option.some.injEq] at firstFound
        simp [← firstFound, split] at firstStraight
      · rintro rfl
        rw [found, Option.some.injEq] at secondFound
        simp [← secondFound, split] at secondStraight
  · cases rejoins

theorem vertex?_mergeTwins (graph : Graph) (onTrue onFalse next : VertexId) (second : Vertex)
    (source : VertexId) :
    (graph.mergeTwins onTrue onFalse next second).vertex? source =
      if source = onFalse then none
      else (graph.vertex? source).map fun vertex =>
        { vertex with
          parents := if source = next then vertex.parents.erase onFalse else vertex.parents
          positions :=
            if source = onTrue then Position.merge vertex.positions second.positions
            else vertex.positions } := by
  rw [mergeTwins, vertex?_mapVertices]
  by_cases gone : source = onFalse
  · simp only [if_pos gone]
    cases graph.vertex? source <;> rfl
  · simp only [if_neg gone, Option.map_eq_bind]
    rfl

theorem exists_before_mergeTwins {onTrue onFalse next source : VertexId} {second after : Vertex}
    (found : (graph.mergeTwins onTrue onFalse next second).vertex? source = some after) :
    source ≠ onFalse ∧ ∃ before, graph.vertex? source = some before ∧ after.kind = before.kind ∧
      after.children = before.children := by
  rw [vertex?_mergeTwins] at found
  by_cases gone : source = onFalse
  · simp [gone] at found
  · rw [if_neg gone, Option.map_eq_some_iff] at found
    rcases found with ⟨before, beforeFound, rfl⟩
    exact ⟨gone, before, beforeFound, rfl, rfl⟩

/-- A vertex that nothing leads to can be removed with its only edge. -/
theorem consistent_mergeTwins (consistent : graph.Consistent) {onTrue onFalse next : VertexId}
    {second : Vertex} (leads : graph.children onFalse = [next])
    (orphan : graph.parents onFalse = []) :
    (graph.mergeTwins onTrue onFalse next second).Consistent := by
  have children (source : VertexId) :
      (graph.mergeTwins onTrue onFalse next second).children source =
      if source = onFalse then [] else graph.children source := by
    by_cases gone : source = onFalse
    · simp [Graph.children, vertex?_mergeTwins, gone]
    · cases found : graph.vertex? source <;> simp [Graph.children, vertex?_mergeTwins, gone, found]
  have parents (target : VertexId) : (graph.mergeTwins onTrue onFalse next second).parents target =
      if target = onFalse then [] else if target = next then (graph.parents target).erase onFalse
      else graph.parents target := by
    by_cases gone : target = onFalse
    · simp [Graph.parents, vertex?_mergeTwins, gone]
    · cases found : graph.vertex? target <;> simp [Graph.parents, vertex?_mergeTwins, gone, found]
  refine ⟨?_, ?_⟩
  · intro source target
    rw [children, parents]
    by_cases sourceGone : source = onFalse
    · have only : (graph.parents target).count onFalse = [next].count target := by
        rw [← consistent.mirrored, leads]
      rw [if_pos sourceGone, sourceGone, List.count_nil]
      split_ifs with targetGone isNext
      · rfl
      · rw [List.count_erase_self, only, isNext, List.count_singleton_self]
      · rw [only, eq_comm, List.count_eq_zero, List.mem_singleton]
        exact isNext
    · rw [if_neg sourceGone, consistent.mirrored]
      split_ifs with targetGone isNext
      · rw [targetGone, orphan]
      · rw [List.count_erase_of_ne sourceGone]
      · rfl
  · intro source after afterFound
    rcases exists_before_mergeTwins afterFound with ⟨-, before, beforeFound, kind, leads⟩
    rw [kind, leads]
    exact consistent.fits beforeFound

namespace Collapsed

variable {id onTrue onFalse next : VertexId} {vertex second : Vertex} {straight : Kind}
  {collapsed : Graph} (collapse : graph.Collapsed collapsed id vertex straight onTrue)

include collapse

theorem view_mergeTwins {source : VertexId} (kept : source ≠ onFalse) {before : Vertex}
    (found : graph.vertex? source = some before) :
    ∃ after, (collapsed.mergeTwins onTrue onFalse next second).vertex? source = some after ∧
      after.kind = (if source = id then straight else before.kind) ∧
        after.children = if source = id then [onTrue] else before.children := by
  rw [vertex?_mergeTwins, if_neg kept, collapse.view, found]
  exact ⟨_, rfl, rfl, rfl⟩

theorem declared_mergeTwins (declared : graph.Declared) :
    (collapsed.mergeTwins onTrue onFalse next second).Declared := by
  have sound := collapse.declared declared
  rw [declared_iff] at sound ⊢
  intro source after afterFound var occurs
  rcases exists_before_mergeTwins afterFound with ⟨-, before, beforeFound, kind, -⟩
  exact sound source before beforeFound var (kind ▸ occurs)

theorem chosen_of_mergeTwins {target : VertexId}
    (chosen : (collapsed.mergeTwins onTrue onFalse next second).Chosen target) :
    graph.Chosen target := by
  apply collapse.chosen
  rcases chosen_iff.mp chosen with ⟨source, after, afterFound, decides, leads⟩
  rcases exists_before_mergeTwins afterFound with ⟨-, before, beforeFound, kind, same⟩
  exact chosen_iff.mpr ⟨source, before, beforeFound, kind ▸ decides, same ▸ leads⟩

theorem contains_of_mergeTwins {source : VertexId}
    (live : (collapsed.mergeTwins onTrue onFalse next second).contains source = true) :
    source ≠ onFalse ∧ graph.contains source = true := by
  rcases contains_iff.mp live with ⟨after, afterFound⟩
  rcases exists_before_mergeTwins afterFound with ⟨kept, before, beforeFound, -⟩
  exact ⟨kept, (collapse.contains_eq source).symm.trans (contains_iff.mpr ⟨before, beforeFound⟩)⟩

theorem eq_of_mergeTwins {source : VertexId} (live : graph.contains source = true)
    (gone : (collapsed.mergeTwins onTrue onFalse next second).contains source = false) :
    source = onFalse := by
  by_contra kept
  rcases contains_iff.mp live with ⟨before, found⟩
  rcases collapse.view_mergeTwins kept found with ⟨after, afterFound, -, -⟩
  rw [contains, afterFound] at gone
  cases gone

end Collapsed

namespace Twins

variable {id onTrue onFalse next : VertexId} {vertex first second : Vertex} {straight : Kind}
  {collapsed : Graph} (twins : graph.Twins id onTrue onFalse next vertex first second)
  (collapse : graph.Collapsed collapsed id vertex straight onTrue)

include twins collapse

theorem consistent (consistent : graph.Consistent) :
    (collapsed.mergeTwins onTrue onFalse next second).Consistent := by
  apply consistent_mergeTwins (collapse.consistent consistent)
  · rw [collapse.children, if_neg twins.falseApart, children_eq twins.secondFound,
      twins.secondLeads]
  · rw [collapse.parents, parents_eq twins.secondFound, twins.entry, twins.children,
      List.erase_cons_head, List.count_singleton_self]
    simp [eraseTimes]

theorem behavesLike (consistent : graph.Consistent) {root : VertexId}
    (start : graph.root = some root)
    (rootLive : (collapsed.mergeTwins onTrue onFalse next second).contains root = true) :
    graph.BehavesLike (collapsed.mergeTwins onTrue onFalse next second) := by
  rcases collapse.contains_of_mergeTwins rootLive with ⟨rootKept, live⟩
  rcases Kind.collapsed?_spec collapse.kind with ⟨exit, run, events, -⟩
  rcases collapse.view_mergeTwins twins.falseApart.symm twins.found with
    ⟨folded, foldedFound, kind, leads⟩
  rw [if_pos rfl] at kind leads
  have stays {source : VertexId} (kept : source ≠ onFalse) :
      VertexId.redirect onFalse onTrue source = source := by
    simp [VertexId.redirect, kept]
  refine behavesLike_of_rename (VertexId.redirect onFalse onTrue) consistent start live ?_
    collapse.vars collapse.grid ?_ twins.found (by rwa [stays twins.falseApart.symm])
    (by rwa [kind]) (by rwa [kind]) (by simp [twins.children, leads]) ?_ ?_
  · rw [stays rootKept]
    exact collapse.root.trans start
  · intro source before apart beforeFound
    by_cases isSecond : source = onFalse
    · subst isSecond
      rw [twins.secondFound, Option.some.injEq] at beforeFound
      subst beforeFound
      rcases collapse.view_mergeTwins twins.apart twins.firstFound with
        ⟨after, afterFound, afterKind, afterLeads⟩
      rw [if_neg twins.trueApart] at afterKind afterLeads
      refine ⟨after, by simpa [VertexId.redirect] using afterFound, afterKind.trans twins.kind, ?_⟩
      rw [afterLeads, twins.firstLeads, twins.secondLeads, List.map_singleton,
        stays twins.nextApart]
    · rcases collapse.view_mergeTwins isSecond beforeFound with
        ⟨after, afterFound, afterKind, afterLeads⟩
      rw [if_neg apart] at afterKind afterLeads
      refine ⟨after, by rwa [stays isSecond], afterKind, ?_⟩
      rw [afterLeads, map_redirect_of_not_mem]
      intro edge
      rw [← children_eq beforeFound, consistent.mem_children_iff, parents_eq twins.secondFound,
        twins.entry, List.mem_singleton] at edge
      exact apart edge
  · intro state drawn target moves
    have among := List.mem_of_getElem? moves
    simp only [twins.children, List.mem_cons, List.not_mem_nil, or_false] at among
    refine ⟨0, ?_⟩
    rw [leads, kind, Kind.edge_of_next exit]
    rcases among with rfl | rfl
    · simp [stays twins.apart]
    · simp [VertexId.redirect]
  · intro state drawn target moves
    rw [leads, kind, Kind.edge_of_next exit, List.getElem?_cons_zero, Option.some.injEq] at moves
    rcases (consistent.fits twins.found).leaves state with childless | ⟨twinDrawn, child, leaves⟩
    · simp [twins.children] at childless
    · refine ⟨twinDrawn, child, leaves, ?_⟩
      have among := List.mem_of_getElem? leaves
      simp only [twins.children, List.mem_cons, List.not_mem_nil, or_false] at among
      rcases among with rfl | rfl
      · rw [stays twins.apart, moves]
      · simp [VertexId.redirect, moves]

theorem folds (consistent : graph.Consistent) :
    graph.Folds (collapsed.mergeTwins onTrue onFalse next second) where
  consistent := twins.consistent collapse consistent
  declared := collapse.declared_mergeTwins
  root := collapse.root
  shrinks live := (collapse.contains_of_mergeTwins live).2
  chosen := collapse.chosen_of_mergeTwins
  spares live gone := by
    rw [collapse.eq_of_mergeTwins live gone]
    exact chosen_iff.mpr ⟨id, vertex, twins.found, twins.decision, by simp [twins.children]⟩
  alike := twins.behavesLike collapse consistent

end Twins

/-- What comes of folding the branch at a vertex in one of the ways there are. -/
inductive FoldedAt (graph : Graph) (id : VertexId) : Graph → Prop
  | collapsed {other : Graph} {vertex : Vertex} {straight : Kind} {keep : VertexId}
      (collapse : graph.Collapsed other id vertex straight keep)
      (goes : ∀ {state drawn next}, vertex.children[vertex.kind.edge drawn state]? = some next →
        next = keep) :
      FoldedAt graph id other
  | unnegated {other : Graph} {vertex : Vertex} {kind : Kind} {onTrue onFalse : VertexId}
      (unnegated : graph.Unnegated other id vertex kind onTrue onFalse) : FoldedAt graph id other
  | merged {collapsed : Graph} {vertex first second : Vertex} {straight : Kind}
      {onTrue onFalse next : VertexId}
        (twins : graph.Twins id onTrue onFalse next vertex first second)
      (collapse : graph.Collapsed collapsed id vertex straight onTrue) :
      FoldedAt graph id (collapsed.mergeTwins onTrue onFalse next second)

theorem FoldedAt.folds {id : VertexId} (folded : graph.FoldedAt id other)
    (consistent : graph.Consistent) : graph.Folds other := by
  cases folded with
  | collapsed collapse goes => exact collapse.folds consistent goes
  | unnegated unnegated => exact unnegated.folds consistent
  | merged twins collapse => exact twins.folds collapse consistent

/-- A fold adds no vertices and no edges. -/
theorem FoldedAt.view {id source : VertexId} {after : Vertex} (folded : graph.FoldedAt id other)
    (found : other.vertex? source = some after) :
    ∃ before, graph.vertex? source = some before ∧ after.children.Subperm before.children ∧
      (source = id → before.kind.FoldsTo after.kind) ∧
        (source ≠ id → after.kind = before.kind) := by
  cases folded with
  | collapsed collapse goes => exact collapse.view_before found
  | unnegated unnegated =>
      by_cases same : source = id
      · subst same
        rw [unnegated.view_folded, Option.some.injEq] at found
        subst found
        refine ⟨_, unnegated.found, ?_, fun _ => .inr unnegated.negation,
          fun apart => absurd rfl apart⟩
        rw [unnegated.children]
        exact (List.Perm.swap _ _ []).subperm
      · rw [unnegated.view_other same] at found
        exact ⟨after, found, .refl _, fun isId => absurd isId same, fun _ => rfl⟩
  | merged twins collapse =>
      rcases exists_before_mergeTwins found with ⟨-, between, betweenFound, kind, leads⟩
      rw [kind, leads]
      exact collapse.view_before betweenFound

/-- Wherever the fold applies, it folds the branch in one of these ways. -/
def SoundFold (fold : Fold) : Prop :=
  ∀ {graph other id vertex}, graph.Consistent → graph.vertex? id = some vertex →
    fold graph id vertex = .ok (some other) → graph.FoldedAt id other

theorem sound_foldConstant? : SoundFold foldConstant? := by
  intro graph other id vertex consistent found result
  unfold foldConstant? at result
  split at result
  · rename_i value onTrue onFalse rest constant children
    rcases Option.bind_eq_some_iff.mp constant with ⟨test, tested, literal⟩
    have exit := Kind.test?_eq_some_iff.mp tested
    have member : (if value ≠ 0 then onTrue else onFalse) ∈ vertex.children := by
      rw [children]
      split_ifs <;> simp
    rcases collapsed_of_collapse? found member result with ⟨straight, collapse⟩
    apply FoldedAt.collapsed collapse
    intro state drawn next moves
    rw [children, Kind.edge, exit, Exit.edge, Expr.eq_const_of_constant? literal] at moves
    by_cases zero : value = 0 <;> simp_all [Expr.eval]
  · cases result

theorem sound_foldUniform? : SoundFold foldUniform? := by
  intro graph other id vertex consistent found result
  unfold foldUniform? at result
  split at result
  · rename_i first rest _ children
    split_ifs at result with uniform
    · have member : first ∈ vertex.children := by simp [children]
      rcases collapsed_of_collapse? found member result with ⟨straight, collapse⟩
      apply FoldedAt.collapsed collapse
      intro state drawn next moves
      have among := List.mem_of_getElem? moves
      rw [children, List.mem_cons] at among
      rcases among with same | among
      · exact same
      · simpa using List.all_eq_true.mp uniform next among
    · cases result
  · cases result

theorem sound_foldNegated? : SoundFold foldNegated? := by
  intro graph other id vertex consistent found result
  unfold foldNegated? at result
  split at result
  · cases result
  · rename_i kind onTrue onFalse rest unnegated children
    rcases Kind.unnegated?_spec unnegated with ⟨operand, ops, exit, exitAfter⟩
    have two : rest = [] := by
      have fits := consistent.fits found
      simpa [Kind.Fits, Kind.arity?, exit, Exit.arity?, children] using fits
    subst two
    cases result
    refine .unnegated ⟨rfl, rfl, rfl, found, unnegated, children, fun source => ?_⟩
    rw [modify, vertex?_mapVertices, Option.map_eq_bind]
    rfl
  · cases result

theorem sound_foldIdentical? : SoundFold foldIdentical? := by
  intro graph other id vertex consistent found result
  unfold foldIdentical? at result
  split at result
  · rename_i onTrue onFalse rest decision children
    split_ifs at result with apart
    · cases result
    · unfold foldTwins? at result
      rcases bind_eq_ok_iff.mp result with ⟨first, firstFound, result⟩
      rcases bind_eq_ok_iff.mp result with ⟨second, secondFound, result⟩
      rw [vertex_eq_ok_iff] at firstFound secondFound
      cases rejoins : rejoin? id onTrue onFalse first second with
      | none => simp [rejoins] at result
      | some next =>
          simp only [rejoins] at result
          rcases bind_eq_ok_iff.mp result with ⟨collapsed?, collapse, result⟩
          cases collapsed? with
          | none => cases result
          | some collapsed =>
              have twins := twins_of_rejoin? consistent found decision children apart firstFound
                secondFound rejoins
              rcases collapsed_of_collapse? found (by simp [children]) collapse with
                ⟨straight, collapse⟩
              dsimp only at result
              split_ifs at result
              · cases result
                exact .merged twins collapse
  · cases result

theorem sound_of_mem_folds {fold : Fold} (member : fold ∈ folds) : SoundFold fold := by
  simp only [folds, List.mem_cons, List.not_mem_nil, or_false] at member
  rcases member with rfl | rfl | rfl | rfl
  · exact sound_foldConstant?
  · exact sound_foldNegated?
  · exact sound_foldUniform?
  · exact sound_foldIdentical?

theorem foldBy?_spec {ways : List Fold} (sound : ∀ fold ∈ ways, SoundFold fold)
    (consistent : graph.Consistent) {id : VertexId} {vertex : Vertex}
    (found : graph.vertex? id = some vertex)
    (result : graph.foldBy? id vertex ways = .ok (some other)) : graph.FoldedAt id other := by
  induction ways with
  | nil => cases result
  | cons fold ways ih =>
      simp only [foldBy?] at result
      split at result
      · exact ih (fun fold member => sound fold (List.mem_cons_of_mem _ member)) result
      · exact sound fold List.mem_cons_self consistent found result

/-- A fold at any vertex. -/
theorem foldAt?_spec (consistent : graph.Consistent) {id : VertexId}
    (result : graph.foldAt? id = .ok (some other)) : graph.FoldedAt id other := by
  unfold foldAt? at result
  split at result
  · cases result
  · rename_i vertex found
    exact foldBy?_spec (fun _ => sound_of_mem_folds) consistent found result

/-- Folds can be done one after the other: a root that is still there at the end was there all
along. -/
theorem Folds.trans {third : Graph} (first : graph.Folds other) (second : other.Folds third) :
    graph.Folds third where
  consistent := second.consistent
  declared declared := second.declared (first.declared declared)
  root := second.root.trans first.root
  shrinks live := first.shrinks (second.shrinks live)
  chosen chosen := first.chosen (second.chosen chosen)
  spares := by
    intro id live gone
    cases between : other.contains id with
    | true => exact first.chosen (second.spares between gone)
    | false => exact first.spares live between
  alike := by
    intro root start live
    exact (first.alike start (second.shrinks live)).trans
      (second.alike (first.root.trans start) live)

/-- A branch is folded in a consistent graph. -/
def Folding (graph other : Graph) : Prop :=
  graph.Consistent ∧ ∃ id, graph.FoldedAt id other

theorem folds_of_folding (run : Relation.TransGen Folding graph other) : graph.Folds other := by
  induction run with
  | single step =>
      rcases step with ⟨consistent, id, folded⟩
      exact folded.folds consistent
  | tail _ step ih =>
      rcases step with ⟨consistent, id, folded⟩
      exact ih.trans (folded.folds consistent)

/-- The vertices are visited one after the other, and the branches that are folded on the way are
counted. -/
theorem foldEach_run (consistent : graph.Consistent) {ids : List VertexId} {count : Nat}
    (result : graph.foldEach ids = .ok (other, count)) :
    (count = 0 ∧ other = graph) ∨ (count ≠ 0 ∧ Relation.TransGen Folding graph other) := by
  induction ids generalizing graph count with
  | nil =>
      cases result
      exact .inl ⟨rfl, rfl⟩
  | cons id ids ih =>
      simp only [foldEach] at result
      rcases bind_eq_ok_iff.mp result with ⟨folded?, folding, result⟩
      cases folded? with
      | none => exact ih consistent result
      | some folded =>
          have step := foldAt?_spec consistent folding
          have first : Folding graph folded := ⟨consistent, id, step⟩
          rcases bind_eq_ok_iff.mp result with ⟨⟨final, others⟩, rest, same⟩
          cases same
          refine .inr ⟨by omega, ?_⟩
          rcases ih (step.folds consistent).consistent rest with ⟨-, rfl⟩ | ⟨-, run⟩
          · exact .single first
          · exact .head first run

/-- The pass changes nothing, or it folds branches and drops what can no longer be reached. -/
theorem foldBranches_run (consistent : graph.Consistent) {count : Nat}
    (result : graph.foldBranches = .ok (other, count)) :
    (count = 0 ∧ other = graph) ∨
      (count ≠ 0 ∧ ∃ folded, Relation.TransGen Folding graph folded ∧
        other = folded.dropUnreachable) := by
  unfold foldBranches at result
  rcases bind_eq_ok_iff.mp result with ⟨⟨folded, times⟩, folding, same⟩
  cases same
  rcases foldEach_run consistent folding with ⟨zero, unchanged⟩ | ⟨positive, run⟩
  · exact .inl ⟨zero, by rw [if_pos zero, unchanged]⟩
  · exact .inr ⟨positive, folded, run, by rw [if_neg positive]⟩

theorem foldBranches_cases (consistent : graph.Consistent) {count : Nat}
    (result : graph.foldBranches = .ok (other, count)) :
    other = graph ∨ ∃ folded, graph.Folds folded ∧ other = folded.dropUnreachable := by
  rcases foldBranches_run consistent result with ⟨-, unchanged⟩ | ⟨-, folded, run, dropped⟩
  · exact .inl unchanged
  · exact .inr ⟨folded, folds_of_folding run, dropped⟩

/-- The program starts at a handle without a vertex. -/
def RootLost (graph : Graph) : Prop :=
  ∃ root, graph.root = some root ∧ graph.contains root = false

theorem foldBranches_valid_or_lost (valid : graph.Valid) {count : Nat}
    (result : graph.foldBranches = .ok (other, count)) : other.Valid ∨ other.RootLost := by
  rcases valid_iff.mp valid with ⟨consistent, root, start, -, -⟩
  rcases foldBranches_cases consistent result with rfl | ⟨folded, folds, rfl⟩
  · exact .inl valid
  · have foldedStart : folded.root = some root := folds.root.trans start
    cases live : folded.contains root with
    | true =>
        left
        rw [valid_iff]
        exact ⟨consistent_dropUnreachable folds.consistent foldedStart,
          rooted_dropUnreachable foldedStart live⟩
    | false =>
        exact .inr ⟨root, foldedStart, contains_dropUnreachable_of_dead foldedStart live root⟩

/-- Folding the branches of a well-formed program leaves a well-formed program that behaves the
same, unless the root is lost. -/
theorem foldBranches_spec (wellFormed : graph.WellFormed) {count : Nat}
    (result : graph.foldBranches = .ok (other, count)) :
    (other.WellFormed ∧ graph.BehavesLike other) ∨ other.RootLost := by
  rcases foldBranches_cases wellFormed.consistent result with rfl | ⟨folded, folds, rfl⟩
  · exact .inl ⟨wellFormed, .refl other⟩
  · rcases wellFormed.rooted with ⟨root, start, -, -⟩
    have foldedStart : folded.root = some root := folds.root.trans start
    cases live : folded.contains root with
    | true =>
        rcases dropUnreachable_spec folds.consistent (folds.declared wellFormed.declared)
          foldedStart live with ⟨sound, alike⟩
        exact .inl ⟨sound, (folds.alike start live).trans alike⟩
    | false =>
        exact .inr ⟨root, foldedStart, contains_dropUnreachable_of_dead foldedStart live root⟩

/-- Folding the branches of a valid graph leaves a valid graph, unless the root is removed. This can
only happen if a decision leads to the root, and then no vertex is left at all. -/
theorem foldBranches_valid_or_empty (valid : graph.validate = .ok ()) {count : Nat}
    (result : graph.foldBranches = .ok (other, count)) :
    other.validate = .ok () ∨
      ∃ root, graph.root = some root ∧ graph.Chosen root ∧ (∀ id, other.contains id = false) ∧
        other.validate = .error (.unknownVertex root) := by
  have sound := valid
  rw [validate_eq_ok_iff, valid_iff] at sound
  rcases sound with ⟨consistent, root, start, rootLive, -⟩
  rcases foldBranches_cases consistent result with rfl | ⟨folded, folds, rfl⟩
  · exact .inl valid
  · have foldedStart : folded.root = some root := folds.root.trans start
    cases live : folded.contains root with
    | true =>
        left
        rw [validate_eq_ok_iff, valid_iff]
        exact ⟨consistent_dropUnreachable folds.consistent foldedStart,
          rooted_dropUnreachable foldedStart live⟩
    | false =>
        -- The root went with a fold, so a decision led to it, and the last step drops all that is
        -- left.
        have empty := contains_dropUnreachable_of_dead foldedStart live
        exact .inr
          ⟨root, start, folds.spares rootLive live, empty,
            validate_of_dead foldedStart (empty root)⟩

/-- Reads a number and prints one, whichever branch it takes. -/
def equalBranches : Graph where
  slots := #[
    some { kind := .single (.input .number), children := [⟨1⟩] },
    some { kind := .decision, children := [⟨2⟩, ⟨3⟩], parents := [⟨0⟩] },
    some { kind := .single (.push (.const 1)), children := [⟨4⟩], parents := [⟨1⟩] },
    some { kind := .single (.push (.const 1)), children := [⟨4⟩], parents := [⟨1⟩] },
    some { kind := .single (.output .number), parents := [⟨2⟩, ⟨3⟩] }]
  root := some ⟨0⟩
  grid := .blank 0 0
  vars := #[]

/-- The same program without the decision. -/
def mergedBranches : Graph where
  slots := #[
    some { kind := .single (.input .number), children := [⟨1⟩] },
    some { kind := .single .pop, children := [⟨2⟩], parents := [⟨0⟩] },
    some { kind := .single (.push (.const 1)), children := [⟨4⟩], parents := [⟨1⟩] },
    none,
    some { kind := .single (.output .number), parents := [⟨2⟩] }]
  root := some ⟨0⟩
  grid := .blank 0 0
  vars := #[]

theorem foldBranches_valid_or_empty_equalBranches :
    equalBranches.validate = .ok () ∧ equalBranches.foldBranches = .ok (mergedBranches, 1) ∧
      mergedBranches.validate = .ok () := by
  have valid : equalBranches.validate = .ok () := by decide +kernel
  have result : equalBranches.foldBranches = .ok (mergedBranches, 1) := by decide +kernel
  refine ⟨valid, result, ?_⟩
  rcases foldBranches_valid_or_empty valid result with kept | ⟨root, start, chosen, -⟩
  · exact kept
  · cases start
    exact absurd chosen (by decide +kernel)

/-- A loop in which a decision goes on to the root or to a vertex like it. -/
def twinRoot : Graph where
  slots := #[
    some { kind := .single .nop, children := [⟨2⟩], parents := [⟨2⟩] },
    some { kind := .single .nop, children := [⟨2⟩], parents := [⟨2⟩] },
    some { kind := .decision, children := [⟨1⟩, ⟨0⟩], parents := [⟨0⟩, ⟨1⟩] }]
  root := some ⟨0⟩
  grid := .blank 1 1
  vars := #[]

/-- The pass succeeds on a valid graph and leaves one that is not valid. -/
theorem foldBranches_loses_root :
    twinRoot.validate = .ok () ∧
      twinRoot.foldBranches = .ok ({ twinRoot with slots := #[none, none, none] }, 1) ∧
      ({ twinRoot with slots := #[none, none, none] } : Graph).validate =
        .error (.unknownVertex ⟨0⟩) := by
  decide +kernel

end Graph

end StackFlow
