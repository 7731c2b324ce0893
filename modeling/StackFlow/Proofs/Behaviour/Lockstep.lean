import Mathlib
import StackFlow.Proofs.Behaviour.Simulation

/-!
# Programs of one shape

A pass may leave all edges alone and only change what the vertices do. Such a pass
keeps the graph consistent and rooted, and both programs can be run in lockstep:
if a relation between their states is kept by every vertex, and related states
show the same and leave by the same edge, then the programs behave alike and have
related states at every point of every path.
-/

namespace StackFlow.Graph

/-- The other graph has the same vertices and edges, and its vertices do something else. -/
structure Rekinded (graph other : Graph) (change : VertexId → Kind → Kind) : Prop where
  root : other.root = graph.root
  view : ∀ id, other.vertex? id =
    (graph.vertex? id).map fun vertex => { vertex with kind := change id vertex.kind }
  arity : ∀ {id vertex}, graph.vertex? id = some vertex →
    (change id vertex.kind).arity? = vertex.kind.arity?

/-- The vertices that were run, each with the number of the edge by which it was left, if it was
left. -/
abbrev Path := List (VertexId × Option Nat)

/-- A run from the root along the path shows the events and comes to the snapshot. -/
inductive Travels (graph : Graph) (input : Nat → Word) : Path → List Event → Snapshot → Prop where
  | start {root : VertexId} : graph.root = some root →
      Travels graph input [] [] (.running root (graph.initialState input))
  | move {path : Path} {events : List Event} {id next : VertexId} {vertex : Vertex} {state : State}
    (drawn : Nat) :
      graph.Travels input path events (.running id state) → graph.vertex? id = some vertex →
      vertex.children[vertex.kind.edge drawn state]? = some next →
      Travels graph input (path ++ [(id, some (vertex.kind.edge drawn state))])
        (events ++ vertex.kind.events state) (.running next (vertex.kind.run state))
  | halt {path : Path} {events : List Event} {id : VertexId} {vertex : Vertex} {state : State} :
      graph.Travels input path events (.running id state) → graph.vertex? id = some vertex →
      vertex.children = [] →
      Travels graph input (path ++ [(id, none)]) (events ++ vertex.kind.events state)
        (.halted (vertex.kind.run state))

/-- A relation between the states of two programs that have run the same path, which may go on at
a vertex or may be at its end. -/
structure Relation where
  running : Path → VertexId → State → State → Prop
  halted : Path → State → State → Prop

/-- Both runs have come to the same point, in related states. -/
def Relation.Holds (related : Relation) (path : Path) : Snapshot → Snapshot → Prop
  | .running id state, .running other twin => other = id ∧ related.running path id state twin
  | .halted state, .halted twin => related.halted path state twin
  | _, _ => False

/-- Both programs are at the same vertex, in states that are related along some path to it. -/
def Relation.pairing (related : Relation) (graph : Graph) : Pairing :=
  fun id state twin twinState =>
    twin = id ∧ graph.contains id = true ∧ ∃ path, related.running path id state twinState

/-- Related states show the same at every vertex, leave it by the same edge and are related again
after it. -/
def Lockstep (graph : Graph) (change : VertexId → Kind → Kind) (related : Relation) : Prop :=
  ∀ {path id vertex state twin}, graph.vertex? id = some vertex →
    related.running path id state twin →
    vertex.kind.events state = (change id vertex.kind).events twin ∧
    (∀ drawn, (change id vertex.kind).edge drawn twin = vertex.kind.edge drawn state) ∧
    related.halted (path ++ [(id, none)]) (vertex.kind.run state)
      ((change id vertex.kind).run twin) ∧
    ∀ (edge : Nat), ∀ next ∈ vertex.children,
      related.running (path ++ [(id, some edge)]) next (vertex.kind.run state)
        ((change id vertex.kind).run twin)

namespace Rekinded

variable {graph other : Graph} {change : VertexId → Kind → Kind}

theorem found (rekinded : graph.Rekinded other change) {id : VertexId} {vertex : Vertex}
    (found : graph.vertex? id = some vertex) :
    other.vertex? id = some { vertex with kind := change id vertex.kind } := by
  rw [rekinded.view, found, Option.map_some]

theorem exists_vertex (rekinded : graph.Rekinded other change) {id : VertexId} {twin : Vertex}
    (twinFound : other.vertex? id = some twin) :
    ∃ vertex, graph.vertex? id = some vertex ∧
      twin = { vertex with kind := change id vertex.kind } := by
  rw [rekinded.view] at twinFound
  rcases Option.map_eq_some_iff.mp twinFound with ⟨vertex, found, rfl⟩
  exact ⟨vertex, found, rfl⟩

theorem contains (rekinded : graph.Rekinded other change) (id : VertexId) :
    other.contains id = graph.contains id := by
  simp [Graph.contains, rekinded.view]

theorem children (rekinded : graph.Rekinded other change) (id : VertexId) :
    other.children id = graph.children id := by
  unfold Graph.children
  rw [rekinded.view]
  cases graph.vertex? id <;> rfl

theorem parents (rekinded : graph.Rekinded other change) (id : VertexId) :
    other.parents id = graph.parents id := by
  unfold Graph.parents
  rw [rekinded.view]
  cases graph.vertex? id <;> rfl

theorem consistent (rekinded : graph.Rekinded other change) (consistent : graph.Consistent) :
    other.Consistent where
  mirrored := by
    intro source target
    rw [rekinded.children, rekinded.parents, consistent.mirrored]
  fits := by
    intro id twin twinFound
    rcases rekinded.exists_vertex twinFound with ⟨vertex, found, rfl⟩
    have fits := consistent.fits found
    unfold Kind.Fits at fits ⊢
    rwa [rekinded.arity found]

theorem rooted (rekinded : graph.Rekinded other change) (rooted : graph.Rooted) : other.Rooted := by
  rcases rooted with ⟨root, start, live, reached⟩
  refine ⟨root, rekinded.root.trans start, (rekinded.contains root).trans live, ?_⟩
  intro id idLive
  have sameEdges : ∀ node, other.edges.next node = graph.edges.next node := rekinded.children
  have path := reached id ((rekinded.contains id).symm.trans idLive)
  clear idLive live start reached
  induction path with
  | refl node => exact .refl node
  | step edge _ path => exact .step (sameEdges _ ▸ edge) path

/-- The first graph is the second with its own kinds again. -/
theorem symm (rekinded : graph.Rekinded other change) :
    other.Rekinded graph fun id kind => ((graph.vertex? id).map (·.kind)).getD kind where
  root := rekinded.root.symm
  view := by
    intro id
    rw [rekinded.view]
    cases graph.vertex? id <;> rfl
  arity := by
    intro id twin twinFound
    rcases rekinded.exists_vertex twinFound with ⟨vertex, found, rfl⟩
    simp only [found, Option.map_some, Option.getD_some]
    exact (rekinded.arity found).symm

theorem valid (rekinded : graph.Rekinded other change) (valid : graph.Valid) : other.Valid := by
  rcases valid_iff.mp valid with ⟨consistent, rooted⟩
  exact valid_iff.mpr ⟨rekinded.consistent consistent, rekinded.rooted rooted⟩

/-- The check accepts both graphs or none. -/
theorem validate_iff (rekinded : graph.Rekinded other change) :
    other.validate = .ok () ↔ graph.validate = .ok () := by
  rw [validate_eq_ok_iff, validate_eq_ok_iff]
  exact ⟨rekinded.symm.valid, rekinded.valid⟩

section

variable {related : Relation}

theorem behavesLike (rekinded : graph.Rekinded other change) (consistent : graph.Consistent)
    (rooted : graph.Rooted) (lockstep : graph.Lockstep change related)
    (begins : ∀ input root, graph.root = some root →
      related.running [] root (graph.initialState input) (other.initialState input)) :
    graph.BehavesLike other := by
  rcases rooted with ⟨root, start, live, -⟩
  have aligned {id state twin twinState} (pair : related.pairing graph id state twin twinState) :
      graph.Aligned other (related.pairing graph) id state twin twinState := by
    rcases pair with ⟨rfl, idLive, path, holds⟩
    rcases contains_iff.mp idLive with ⟨vertex, found⟩
    rcases lockstep found holds with ⟨events, edges, -, keeps⟩
    refine aligned_of_vertices (fun next => next) found (rekinded.found found)
      (consistent.fits found) (by simp) events edges ?_
    intro next member
    exact ⟨rfl, consistent.child_live (children_eq found ▸ member), _, keeps 0 next member⟩
  exact behavesLike_of_aligned aligned start (rekinded.root.trans start)
    fun input => ⟨rfl, live, [], begins input root start⟩

variable {input : Nat → Word} {path : Path} {events : List Event}

/-- Along every path that the first program takes, the second is in a related state. -/
theorem travels (rekinded : graph.Rekinded other change) (lockstep : graph.Lockstep change related)
    (begins : ∀ root, graph.root = some root →
      related.running [] root (graph.initialState input) (other.initialState input))
    {snapshot : Snapshot} (travels : graph.Travels input path events snapshot) :
    ∃ twin, other.Travels input path events twin ∧ related.Holds path snapshot twin := by
  induction travels with
  | start root => exact ⟨_, .start (rekinded.root.trans root), rfl, begins _ root⟩
  | move drawn _ found leaves before =>
      rcases before with ⟨_ | _, twinTravels, holds⟩
      · obtain ⟨rfl, holds⟩ := holds
        rcases lockstep found holds with ⟨shows, edges, -, keeps⟩
        refine ⟨.running _ _, ?_, rfl, keeps _ _ (List.mem_of_getElem? leaves)⟩
        rw [shows, ← edges]
        exact .move drawn twinTravels (rekinded.found found) (by rw [edges]; exact leaves)
      · exact holds.elim
  | halt _ found childless before =>
      rcases before with ⟨_ | _, twinTravels, holds⟩
      · obtain ⟨rfl, holds⟩ := holds
        rcases lockstep found holds with ⟨shows, -, ends, -⟩
        refine ⟨.halted _, ?_, ends⟩
        rw [shows]
        exact .halt twinTravels (rekinded.found found) childless
      · exact holds.elim

/-- Along every path that the second program takes, the first is in a related state. -/
theorem travels_back (rekinded : graph.Rekinded other change)
    (lockstep : graph.Lockstep change related)
    (begins : ∀ root, graph.root = some root →
      related.running [] root (graph.initialState input) (other.initialState input))
    {twin : Snapshot} (travels : other.Travels input path events twin) :
    ∃ snapshot, graph.Travels input path events snapshot ∧ related.Holds path snapshot twin := by
  induction travels with
  | start root =>
      have start := rekinded.root.symm.trans root
      exact ⟨_, .start start, rfl, begins _ start⟩
  | move drawn _ twinFound leaves before =>
      rcases before with ⟨_ | _, first, holds⟩
      · obtain ⟨rfl, holds⟩ := holds
        rcases rekinded.exists_vertex twinFound with ⟨vertex, found, rfl⟩
        rcases lockstep found holds with ⟨shows, edges, -, keeps⟩
        refine ⟨.running _ _, ?_, rfl, keeps _ _ (List.mem_of_getElem? leaves)⟩
        simp only [edges] at leaves ⊢
        rw [← shows]
        exact .move drawn first found leaves
      · exact holds.elim
  | halt _ twinFound childless before =>
      rcases before with ⟨_ | _, first, holds⟩
      · obtain ⟨rfl, holds⟩ := holds
        rcases rekinded.exists_vertex twinFound with ⟨vertex, found, rfl⟩
        rcases lockstep found holds with ⟨shows, -, ends, -⟩
        refine ⟨.halted _, ?_, ends⟩
        simp only [← shows]
        exact .halt first found childless
      · exact holds.elim

end

end Rekinded

end StackFlow.Graph
