import StackFlow.Digraph
import StackFlow.Graph.Basic

/-!
# Worst-case stack depth

How deep the stack of a program can get. The points of interest are pairs of a vertex and the depth
at which it is entered. Points are explored from the root at depth zero; a vertex can be entered at
several depths, and entering it again at a known depth ends that path.

A loop that comes back to a vertex at a greater depth grows the stack every time round, so there is
no bound. This is only so if no vertex on the way popped past the bottom: a pop that found nothing
adds depth that the next round does not add again.
-/

namespace StackFlow

/-- How deep the stack of a program can get. -/
inductive StackSize where
  /-- No run holds more values than this. -/
  | bounded (size : Nat)
  /-- Some loop grows the stack every time round. -/
  | unbounded
deriving DecidableEq, Nonempty

namespace StackSize

/-- The bound, if there is one. -/
def bound? : StackSize → Option Nat
  | .bounded size => some size
  | .unbounded => none

/-- There is a bound. -/
def isBounded (size : StackSize) : Bool :=
  size.bound?.isSome

/-- The bound in decimal, or the word `unbounded`. -/
def text : StackSize → String
  | .bounded size => size.repr
  | .unbounded => "unbounded"

end StackSize

namespace Depth

/-- A vertex entered at some depth. -/
structure Point where
  vertex : VertexId
  depth : Nat
deriving DecidableEq

/-- The vertex pops past the bottom when it is entered at the depth. -/
def clamps (kind : Kind) (depth : Nat) : Bool :=
  (kind.depthAfter depth : Int) ≠ (depth : Int) + kind.delta

/-- The vertex of the point pops past the bottom. -/
def Point.clamped (graph : Graph) (point : Point) : Bool :=
  match graph.vertex? point.vertex with
  | some vertex => clamps vertex.kind point.depth
  | none => false

/-- The greatest depth on the way through the vertex of the point. -/
def Point.peak (graph : Graph) (point : Point) : Nat :=
  match graph.vertex? point.vertex with
  | some vertex => vertex.kind.peak point.depth
  | none => 0

/-- A point still to be looked at, with the point that leads to it. -/
structure Arrival where
  point : Point
  source : Option Point
deriving DecidableEq

/-- What has been explored and what is still to be looked at. -/
structure Exploration where
  /-- The points explored. -/
  points : List Point
  /-- The steps between explored points that were taken. -/
  steps : List (Point × Point)
  /-- The arrivals still to be looked at. -/
  work : List Arrival

/-- The steps taken backwards, through points at which nothing was popped past the bottom. -/
def Exploration.behind (graph : Graph) (state : Exploration) : Digraph Point where
  next point := ((state.steps.filter (·.2 = point)).map (·.1)).filter (!·.clamped graph)
  support := state.steps.map (·.2)
  next_eq_nil point absent := by
    have noStep : state.steps.filter (·.2 = point) = [] := by
      rw [List.filter_eq_nil_iff]
      intro step taken same
      exact absent (List.mem_map.mpr ⟨step, taken, by simpa using same⟩)
    simp [noStep]

/-- The arrival closes a loop that grows the stack: the same vertex was entered at a smaller depth
on the way, and nothing was popped past the bottom since. -/
def Exploration.grows (graph : Graph) (state : Exploration) (arrival : Arrival) : Bool :=
  let origins := arrival.source.toList.filter (!·.clamped graph)
  ((state.behind graph).search .depthFirst origins).any fun earlier =>
    earlier.vertex = arrival.point.vertex && earlier.depth < arrival.point.depth

/-- The exploration with the step of an arrival taken. -/
def Exploration.addStep (state : Exploration) (arrival : Arrival) : Exploration :=
  { state with
    steps := (arrival.source.toList.map (·, arrival.point)).foldl (·.insert ·) state.steps }

/-- The exploration with a new point and the arrivals at its children. -/
def Exploration.addPoint (state : Exploration) (vertex : Vertex) (point : Point) : Exploration :=
  let depth := vertex.kind.depthAfter point.depth
  { state with
    points := point :: state.points
    work := vertex.children.reverse.map (fun child => ⟨⟨child, depth⟩, some point⟩) ++ state.work }

/-- An exploration goes on, or it is finished. -/
inductive Progress where
  | running (state : Exploration)
  | finished (result : Except GraphError StackSize)

/-- Looks at the first arrival. -/
def Exploration.advance (graph : Graph) (state : Exploration) : Progress :=
  match state.work with
  | [] => .finished (.ok (.bounded ((state.points.map (Point.peak graph)).foldl max 0)))
  | arrival :: work =>
    let rest := { state with work := work }
    if arrival.point ∈ state.points then .running (rest.addStep arrival)
    else if state.grows graph arrival then .finished (.ok .unbounded)
    else
      match graph.vertex? arrival.point.vertex with
      | none => .finished (.error (.unknownVertex arrival.point.vertex))
      | some vertex => .running ((rest.addStep arrival).addPoint vertex arrival.point)

/-- The next round of a loop over explorations, or its result. -/
def Progress.round : Progress → Except GraphError (Exploration ⊕ StackSize)
  | .running state => .ok (.inl state)
  | .finished result => result.map .inr

/-- Looks at one arrival after another until the exploration is finished. -/
def Exploration.run (graph : Graph) (state : Exploration) : Except GraphError StackSize :=
  repeatM (fun state => (state.advance graph).round) state

theorem Exploration.run_eq (graph : Graph) (state : Exploration) :
    state.run graph =
      match state.advance graph with
      | .running next => next.run graph
      | .finished result => result := by
  unfold run
  rw [repeatM_eq_of_monadTail, repeatM.body]
  cases state.advance graph with
  | running next => rfl
  | finished result => cases result <;> rfl

/-- The start of an exploration. -/
def Exploration.start (root : VertexId) : Exploration where
  points := []
  steps := []
  work := [⟨⟨root, 0⟩, none⟩]

end Depth

/-- How deep the stack of the program can get. -/
def Graph.stackSize (graph : Graph) : Except GraphError StackSize :=
  match graph.root with
  | none => .error .missingRoot
  | some root => (Depth.Exploration.start root).run graph

end StackFlow
