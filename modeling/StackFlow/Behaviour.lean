import StackFlow.Graph.Basic
import StackFlow.Machine

/-!
# The behaviour of a program

A program starts at the root of its graph, with an empty stack and with its variables and its grid
as declared. It runs one vertex after another, and it halts after a vertex without children.

Two programs behave alike if they show the same beginnings of runs and the same complete runs,
whatever the input.
-/

namespace StackFlow

/-- A program in the course of a run. -/
inductive Snapshot where
  /-- The vertex is to be run next. -/
  | running (id : VertexId) (state : State)
  /-- The run is over. -/
  | halted (state : State)

namespace Graph

/-- One vertex is run, and the listed events are seen. -/
inductive Step (graph : Graph) : Snapshot → List Event → Snapshot → Prop where
  /-- The run goes on with a child of the vertex. -/
  | move {id next : VertexId} {vertex : Vertex} {state : State} (drawn : Nat) :
      graph.vertex? id = some vertex → vertex.children[vertex.kind.edge drawn state]? = some next →
      Step graph (.running id state) (vertex.kind.events state)
        (.running next (vertex.kind.run state))
  /-- The vertex has no children. -/
  | halt {id : VertexId} {vertex : Vertex} {state : State} :
      graph.vertex? id = some vertex → vertex.children = [] →
      Step graph (.running id state) (vertex.kind.events state) (.halted (vertex.kind.run state))

/-- Any number of vertices are run, and the listed events are seen. -/
inductive Steps (graph : Graph) : Snapshot → List Event → Snapshot → Prop where
  | refl (snapshot : Snapshot) : Steps graph snapshot [] snapshot
  | step {first second last : Snapshot} {events others : List Event} :
      graph.Step first events second → graph.Steps second others last →
        Steps graph first (events ++ others) last

/-- The value of a variable before the program runs; zero for one that is not declared. -/
def initialValue (graph : Graph) (var : VarId) : Word :=
  (graph.vars[var.index]?.map Variable.initial).getD 0

/-- The state in which the program starts. -/
def initialState (graph : Graph) (input : Nat → Word) : State where
  stack := []
  vars := graph.initialValue
  grid := graph.grid
  input := input

/-- Some run of the program reaches the snapshot and has shown the listed events by then. -/
def Arrives (graph : Graph) (input : Nat → Word) (events : List Event) (snapshot : Snapshot) :
    Prop :=
  ∃ root, graph.root = some root ∧
    graph.Steps (.running root (graph.initialState input)) events snapshot

/-- Some run of the program begins with the listed events. -/
def Shows (graph : Graph) (input : Nat → Word) (events : List Event) : Prop :=
  ∃ seen snapshot, graph.Arrives input seen snapshot ∧ events <+: seen

/-- Some run of the program shows just the listed events and then halts. -/
def HaltsWith (graph : Graph) (input : Nat → Word) (events : List Event) : Prop :=
  ∃ state, graph.Arrives input events (.halted state)

/-- The programs cannot be told apart from outside. -/
def BehavesLike (graph other : Graph) : Prop :=
  ∀ input events,
    (graph.Shows input events ↔ other.Shows input events) ∧
      (graph.HaltsWith input events ↔ other.HaltsWith input events)

end Graph

end StackFlow
