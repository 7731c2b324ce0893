import Mathlib
import StackFlow.Behaviour

/-!
# Recorded runs

The record of a run lists the vertices in the order in which they are run, each with
the edge that was drawn, if the vertex is left at random, and with what was seen of
it. Recorded runs are the runs of the machine. Apart from the draws nothing is left
to chance: from one snapshot the same draws lead to the same run.
-/

namespace StackFlow

/-- The edge that is drawn, if the exit is random. -/
def Exit.draw? (exit : Exit) (drawn : Nat) : Option Nat :=
  match exit with
  | .random => some drawn
  | .next | .popped | .tested _ => none

theorem Exit.edge_congr {exit : Exit} {drawn other : Nat}
    (same : exit.draw? drawn = exit.draw? other) (state : State) :
    exit.edge drawn state = exit.edge other state := by
  cases exit with
  | random => exact Option.some.inj same
  | next | popped | tested test => rfl

/-- What is recorded of a vertex that is run. -/
structure Record where
  id : VertexId
  /-- The edge that was drawn, if the vertex is left at random. -/
  drawn : Option Nat
  events : List Event

/-- What is left of a stream of choices after the vertex. -/
def Record.remaining (record : Record) (choices : Nat → Nat) : Nat → Nat :=
  match record.drawn with
  | some _ => fun index => choices (index + 1)
  | none => choices

/-- The edges that were drawn are taken from the stream of choices, one after the other. -/
def DrawnFrom : (Nat → Nat) → List Record → Prop
  | _, [] => True
  | choices, record :: records =>
    (∀ edge, record.drawn = some edge → edge = choices 0) ∧
      DrawnFrom (record.remaining choices) records

namespace Graph

/-- One vertex is run and recorded. -/
inductive Performs (graph : Graph) : Snapshot → Record → Snapshot → Prop where
  | move {id next : VertexId} {vertex : Vertex} {state : State} (drawn : Nat) :
      graph.vertex? id = some vertex → vertex.children[vertex.kind.edge drawn state]? = some next →
      Performs graph (.running id state)
        ⟨id, vertex.kind.exit.draw? drawn, vertex.kind.events state⟩
        (.running next (vertex.kind.run state))
  | halt {id : VertexId} {vertex : Vertex} {state : State} :
      graph.vertex? id = some vertex → vertex.children = [] →
      Performs graph (.running id state) ⟨id, none, vertex.kind.events state⟩
        (.halted (vertex.kind.run state))

/-- Any number of vertices are run and recorded. -/
inductive Runs (graph : Graph) : Snapshot → List Record → Snapshot → Prop where
  | refl (snapshot : Snapshot) : Runs graph snapshot [] snapshot
  | step {first second last : Snapshot} {record : Record} {records : List Record} :
      graph.Performs first record second → graph.Runs second records last →
        Runs graph first (record :: records) last

variable {graph : Graph} {first last final : Snapshot}

theorem step_iff_performs {events : List Event} :
    graph.Step first events last ↔ ∃ record, graph.Performs first record last ∧
      record.events = events := by
  constructor
  · rintro (⟨drawn, found, leaves⟩ | ⟨found, childless⟩)
    · exact ⟨_, .move drawn found leaves, rfl⟩
    · exact ⟨_, .halt found childless, rfl⟩
  · rintro ⟨_, ⟨drawn, found, leaves⟩ | ⟨found, childless⟩, rfl⟩
    · exact .move drawn found leaves
    · exact .halt found childless

/-- The recorded runs are those of the machine. -/
theorem steps_iff_runs {events : List Event} :
    graph.Steps first events last ↔
      ∃ records, graph.Runs first records last ∧ records.flatMap Record.events = events := by
  constructor
  · intro steps
    induction steps with
    | refl snapshot => exact ⟨[], .refl snapshot, rfl⟩
    | step step _ rest =>
        rcases step_iff_performs.mp step with ⟨record, performs, rfl⟩
        rcases rest with ⟨records, runs, rfl⟩
        exact ⟨record :: records, .step performs runs, rfl⟩
  · rintro ⟨records, runs, rfl⟩
    induction runs with
    | refl snapshot => exact .refl snapshot
    | step performs _ rest => exact .step (step_iff_performs.mpr ⟨_, performs, rfl⟩) rest

/-- A vertex that draws what another run drew there does what it did there. -/
theorem Performs.unique {record other : Record} (performs : graph.Performs first record last)
    (again : graph.Performs first other final) {choices : Nat → Nat}
    (drawn : ∀ edge, record.drawn = some edge → edge = choices 0)
    (otherDrawn : ∀ edge, other.drawn = some edge → edge = choices 0) :
    record = other ∧ last = final := by
  cases performs with
  | move edge found leaves =>
      cases again with
      | move otherEdge foundAgain otherLeaves =>
          cases found.symm.trans foundAgain
          rename_i vertex state _
          have sameDraw : vertex.kind.exit.draw? edge = vertex.kind.exit.draw? otherEdge := by
            cases exit : vertex.kind.exit with
            | random =>
                rw [exit] at drawn otherDrawn
                rw [drawn edge rfl, otherDrawn otherEdge rfl]
            | next | popped | tested test => rfl
          have sameEdge : vertex.kind.edge edge state = vertex.kind.edge otherEdge state :=
            Exit.edge_congr sameDraw _
          rw [sameEdge] at leaves
          cases leaves.symm.trans otherLeaves
          exact ⟨by rw [sameDraw], rfl⟩
      | halt foundAgain childless =>
          cases found.symm.trans foundAgain
          simp [childless] at leaves
  | halt found childless =>
      cases again with
      | move edge foundAgain leaves =>
          cases found.symm.trans foundAgain
          simp [childless] at leaves
      | halt foundAgain _ =>
          cases found.symm.trans foundAgain
          exact ⟨rfl, rfl⟩

/-- Two runs from one snapshot with the same choices are the same as far as both go. -/
theorem Runs.unique {records others : List Record} {choices : Nat → Nat}
    (runs : graph.Runs first records last) (again : graph.Runs first others final)
    (drawn : DrawnFrom choices records) (otherDrawn : DrawnFrom choices others)
    (sameLength : records.length = others.length) : records = others ∧ last = final := by
  induction runs generalizing others choices with
  | refl snapshot =>
      cases again with
      | refl _ => exact ⟨rfl, rfl⟩
      | step _ _ => simp at sameLength
  | step performs _ rest =>
      cases again with
      | refl _ => simp at sameLength
      | step performsAgain runsAgain =>
          rcases performs.unique performsAgain drawn.1 otherDrawn.1 with ⟨rfl, rfl⟩
          rcases rest runsAgain drawn.2 otherDrawn.2 (by simpa using sameLength) with ⟨rfl, rfl⟩
          exact ⟨rfl, rfl⟩

end Graph

end StackFlow
