import Mathlib
import StackFlow.Proofs.Depth.Exploration
import StackFlow.Proofs.Graph.Consistency

/-!
# Explorations end

There are infinitely many depths, and a vertex may be entered at any of them. Still
an exploration cannot go on forever. As long as no growing loop is found, a path that
pops nothing past the bottom comes back to a vertex at no greater depth, and a pop
past the bottom starts the count anew. So the points that can be explored are no
deeper than `depthLimit`, and each arrival that is looked at lowers the number of
those that may follow. So `stackSize`, which sets itself no limit, looks at fewer
arrivals than `arrivalLimit`.
-/

namespace StackFlow

namespace Depth

/-- A number of arrivals that finishes every exploration: one for each edge and each depth, one for
the root, and one to see that nothing is left. -/
def arrivalLimit (graph : Graph) : Nat :=
  (depthLimit graph + 1) * (graph.vertices.flatMap fun (_, vertex) => vertex.children).length + 2

/-- The one exploration becomes the other when this number of arrivals is looked at. -/
inductive Exploration.Advances (graph : Graph) : Nat → Exploration → Exploration → Prop where
  | refl (state : Exploration) : Advances graph 0 state state
  | step {count : Nat} {state next last : Exploration} :
      state.advance graph = .running next → Advances graph count next last →
        Advances graph (count + 1) state last

namespace Exploration

variable {graph : Graph} {root : VertexId} {state next last : Exploration} {count : Nat}

theorem run_of_advances (advances : Advances graph count state last)
    {result : Except GraphError StackSize} (ends : last.advance graph = .finished result) :
    state.run graph = result := by
  induction advances with
  | refl state => rw [run_eq, ends]
  | step goesOn _ rest =>
      rw [run_eq, goesOn]
      exact rest ends

variable (rooted : graph.root = some root)
  (live : ∀ id, graph.edges.Reaches root id → graph.contains id = true)

include rooted live

theorem Sound.running (sound : state.Sound graph root)
    (goesOn : state.advance graph = .running next) :
    next.Sound graph root ∧ next.due graph < state.due graph := by
  rcases sound.advance_cases rooted live with ⟨-, ends⟩ | ⟨_, -, -, ends⟩ | ⟨other, running, kept⟩
  · simp [goesOn] at ends
  · simp [goesOn] at ends
  · cases goesOn.symm.trans running
    exact kept

/-- Each arrival that is looked at uses up one of those that are due. -/
theorem Sound.advances (sound : state.Sound graph root)
    (advances : Advances graph count state last) :
    last.Sound graph root ∧ last.due graph + count ≤ state.due graph := by
  induction advances with
  | refl state => exact ⟨sound, le_rfl⟩
  | step goesOn _ rest =>
      rcases sound.running rooted live goesOn with ⟨nextSound, fewer⟩
      rcases rest nextSound with ⟨lastSound, used⟩
      exact ⟨lastSound, by omega⟩

/-- An exploration ends, either with nothing left to be looked at or at a growing loop. -/
theorem Sound.exists_end (sound : state.Sound graph root) :
    ∃ count last, Advances graph count state last ∧
      ((last.work = [] ∧ ∃ size, last.advance graph = .finished (.ok (.bounded size))) ∨
        ((∃ arrival ∈ last.work, last.grows graph arrival = true) ∧
          last.advance graph = .finished (.ok .unbounded))) := by
  refine run_induction rooted live ?_ ?_ ?_ sound
  · intro state _ done ends
    exact ⟨0, state, .refl state, .inl ⟨done, _, ends⟩⟩
  · intro state arrival _ waits grows ends
    exact ⟨0, state, .refl state, .inr ⟨⟨arrival, waits, grows⟩, ends⟩⟩
  · rintro state next goesOn ⟨count, last, advances, ends⟩
    exact ⟨count + 1, last, .step goesOn advances, ends⟩

end Exploration

end Depth

namespace Graph

open Depth

/-- The exploration of the depths of a program comes to an end, whatever loops there are: no
exploration looks at as many arrivals as the limit allows, and there is one that ends because
nothing is left to be looked at or because a growing loop is found. What it ends with is the
predicted stack size. -/
theorem stackSize_terminates {graph : Graph} {root : VertexId} (rooted : graph.root = some root)
    (live : ∀ id, graph.edges.Reaches root id → graph.contains id = true) :
    (∀ count state, Exploration.Advances graph count (.start root) state →
        count < arrivalLimit graph) ∧
      ∃ count last, Exploration.Advances graph count (.start root) last ∧
        ((last.work = [] ∧ ∃ size, last.advance graph = .finished (.ok (.bounded size)) ∧
            graph.stackSize = .ok (.bounded size)) ∨
          ((∃ arrival ∈ last.work, last.grows graph arrival = true) ∧
            last.advance graph = .finished (.ok .unbounded) ∧
            graph.stackSize = .ok .unbounded)) := by
  have few : (Exploration.start root).due graph < arrivalLimit graph := by
    simp [Exploration.due, Exploration.start, openEdges_nil, arrivalLimit]
  have short : ∀ count state, Exploration.Advances graph count (.start root) state →
      count < arrivalLimit graph := by
    intro count state advances
    have used := (Exploration.start_sound.advances rooted live advances).2
    omega
  refine ⟨short, ?_⟩
  rcases Exploration.start_sound.exists_end rooted live with ⟨count, last, advances, ends⟩
  have answer {result : Except GraphError StackSize}
      (finished : last.advance graph = .finished result) :
      graph.stackSize = result := by
    rw [stackSize_of_root rooted]
    exact Exploration.run_of_advances advances finished
  refine ⟨count, last, advances, ?_⟩
  rcases ends with ⟨done, size, finished⟩ | ⟨grows, finished⟩
  · exact .inl ⟨done, size, finished, answer finished⟩
  · exact .inr ⟨grows, finished, answer finished⟩

/-- A loop that pushes two values around a loop that pops them, past the bottom if it is run often
enough. -/
def nestedLoops : Graph where
  slots := #[
    some { kind := .block [.push (.const 1), .dup], children := [⟨1⟩], parents := [⟨2⟩] },
    some { kind := .single .pop, children := [⟨2⟩], parents := [⟨0⟩, ⟨2⟩] },
    some { kind := .exprDecision .peek, children := [⟨1⟩, ⟨0⟩], parents := [⟨1⟩] }]
  root := some ⟨0⟩
  grid := .blank 0 0
  vars := #[]

theorem stackSize_terminates_nestedLoops :
    nestedLoops.validate = .ok () ∧ nestedLoops.stackSize = .ok .unbounded ∧
      ∃ count last, Exploration.Advances nestedLoops count (.start ⟨0⟩) last ∧
        last.advance nestedLoops = .finished (.ok .unbounded) := by
  have valid : nestedLoops.validate = .ok () := by decide +kernel
  have size : nestedLoops.stackSize = .ok .unbounded :=
    stackSize_of_within? 20 (by decide +kernel)
  have consistent := (valid_iff.mp (validate_eq_ok_iff.mp valid)).1
  refine ⟨valid, size, ?_⟩
  have live : ∀ id, nestedLoops.edges.Reaches ⟨0⟩ id → nestedLoops.contains id = true :=
    fun id path => consistent.reaches_live path rfl
  rcases (stackSize_terminates rfl live).2 with
    ⟨count, last, advances, ⟨-, _, -, bounded⟩ | ⟨-, finished, -⟩⟩
  · simp [size] at bounded
  · exact ⟨count, last, advances, finished⟩

end Graph

end StackFlow
