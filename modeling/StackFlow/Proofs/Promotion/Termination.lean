import Mathlib
import StackFlow.Proofs.Depth.Exploration
import StackFlow.Proofs.Promotion.Visits

/-!
# The visits come to an end

Symbolic stacks have no greatest depth: a loop that pushes arrives at its vertices with
ever deeper stacks. What ends the exploration is the room that the limit leaves. A visit
uses up one of the depths allowed to its vertex and adds an arrival for each child, and an
arrival that makes no visit is gone. So the visits that are still allowed, each counted
together with what it may lead to, and the arrivals that wait become fewer with every step.
-/

namespace StackFlow.Promotion

/-- The depths at which a vertex has been visited. -/
def depthsOf (visits : List Visit) (id : VertexId) : List Nat :=
  (visitsOf visits id).map (·.stack.length)

theorem depthsOf_append (visits : List Visit) (visit : Visit) (id : VertexId) :
    depthsOf (visits ++ [visit]) id =
      depthsOf visits id ++ if visit.vertex = id then [visit.stack.length] else [] := by
  by_cases same : visit.vertex = id <;> simp [depthsOf, visitsOf, same]

theorem length_depthsOf (visits : List Visit) (id : VertexId) :
    (depthsOf visits id).length = (visits.map Visit.vertex).count id := by
  rw [depthsOf, List.length_map, visitsOf, ← List.countP_eq_length_filter, List.count,
    List.countP_map]
  rfl

theorem not_isClosed_iff {limit : Nat} {visits : List Visit} {arrival : Visit} :
    isClosed limit visits arrival = false ↔
      arrival.stack.length ∉ depthsOf visits arrival.vertex ∧
        (depthsOf visits arrival.vertex).length < limit := by
  simp [isClosed, depthsOf]

theorem openVisits_nil (graph : Graph) (limit : Nat) (ids : List VertexId) :
    openVisits graph limit [] ids =
      limit * (ids.map fun id => (graph.children id).length + 1).sum := by
  induction ids with
  | nil => rfl
  | cons id ids ih =>
      simp only [openVisits, ih, visitsOf, List.filter_nil, List.length_nil, Nat.sub_zero,
        List.map_cons, List.sum_cons]
      ring

/-- How far an exploration has come. -/
structure Stage where
  /-- The visits made. -/
  visits : List Visit
  /-- The arrivals still to be looked at. -/
  arrivals : List Visit

namespace Stage

/-- Nothing is visited, and the root waits with an empty stack. -/
def start (root : VertexId) : Stage :=
  ⟨[], [⟨root, []⟩]⟩

/-- Looks at the first arrival, and expands the listed vertices: the vertex of the arrival if that
makes a visit, else none. -/
inductive Step (graph : Graph) (limit : Nat) : Stage → List VertexId → Stage → Prop where
  | skip {visits rest : List Visit} {arrival : Visit} : isClosed limit visits arrival = true →
      Step graph limit ⟨visits, arrival :: rest⟩ [] ⟨visits, rest⟩
  | expand {visits rest : List Visit} {arrival : Visit} : isClosed limit visits arrival = false →
      graph.contains arrival.vertex = true →
      Step graph limit ⟨visits, arrival :: rest⟩ [arrival.vertex]
        ⟨visits ++ [arrival], arrival.arrivals graph ++ rest⟩

/-- Looks at so many arrivals, and expands the listed vertices in turn. -/
inductive Steps (graph : Graph) (limit : Nat) : Nat → Stage → List VertexId → Stage → Prop where
  | refl (stage : Stage) : Steps graph limit 0 stage [] stage
  | step {count : Nat} {stage next last : Stage} {first others : List VertexId} :
      Step graph limit stage first next → Steps graph limit count next others last →
      Steps graph limit (count + 1) stage (first ++ others) last

variable {graph : Graph} {limit count : Nat} {stage next last : Stage} {expanded : List VertexId}

theorem Step.explore_eq (step : Step graph limit stage expanded next) :
    explore graph limit stage.visits stage.arrivals =
      explore graph limit next.visits next.arrivals := by
  cases step with
  | skip closed => rw [explore, if_pos closed]
  | expand unclosed live => rw [explore, if_neg (Bool.eq_false_iff.mp unclosed), if_pos live]

theorem Steps.explore_eq (steps : Steps graph limit count stage expanded last) :
    explore graph limit stage.visits stage.arrivals =
      explore graph limit last.visits last.arrivals := by
  induction steps with
  | refl stage => rfl
  | step first _ others => exact first.explore_eq.trans others

/-- An exploration that succeeds takes steps until nothing is left to be looked at. -/
theorem steps_of_explore {visits arrivals final : List Visit}
    (result : explore graph limit visits arrivals = .ok final) :
    ∃ count expanded, Steps graph limit count ⟨visits, arrivals⟩ expanded ⟨final, []⟩ := by
  fun_induction explore graph limit visits arrivals with
  | case1 visits =>
      cases result
      exact ⟨0, [], .refl _⟩
  | case2 visits arrival rest closed ih =>
      rcases ih result with ⟨count, expanded, steps⟩
      exact ⟨count + 1, _, .step (.skip closed) steps⟩
  | case3 visits arrival rest unclosed live ih =>
      rcases ih result with ⟨count, expanded, steps⟩
      exact ⟨count + 1, _, .step (.expand (Bool.eq_false_iff.mpr unclosed) live) steps⟩
  | case4 visits arrival rest unclosed dead => cases result

/-- The visits that are still allowed, each with what it may lead to, and the arrivals that wait. -/
def room (graph : Graph) (limit : Nat) (stage : Stage) : Nat :=
  openVisits graph limit stage.visits graph.ids + stage.arrivals.length

theorem Step.room_lt (step : Step graph limit stage expanded next) :
    next.room graph limit < stage.room graph limit := by
  cases step with
  | skip closed => simp [room]
  | expand unclosed live =>
      have allowed := (not_isClosed_iff.mp unclosed).2
      rw [depthsOf, List.length_map] at allowed
      -- The visit gives up its share of the room, which is greater by one than what its children
      -- take.
      have shrinks := openVisits_append_lt graph (Graph.mem_ids.mpr live) allowed
      simp only [room, Visit.arrivals, List.length_append, List.length_map, List.length_cons]
      omega

theorem Steps.count_add_room_le (steps : Steps graph limit count stage expanded last) :
    count + last.room graph limit ≤ stage.room graph limit := by
  induction steps with
  | refl stage => exact (Nat.zero_add _).le
  | step first _ others =>
      have fewer := first.room_lt
      omega

/-- No vertex has been visited at more depths than the limit allows, nor at one depth twice. -/
def Capped (limit : Nat) (visits : List Visit) : Prop :=
  ∀ id, (depthsOf visits id).Nodup ∧ (depthsOf visits id).length ≤ limit

theorem Step.capped (step : Step graph limit stage expanded next)
    (capped : Capped limit stage.visits) : Capped limit next.visits := by
  cases step with
  | skip closed => exact capped
  | @expand visits rest arrival unclosed live =>
      rcases not_isClosed_iff.mp unclosed with ⟨fresh, allowed⟩
      intro id
      rcases capped id with ⟨distinct, -⟩
      rw [depthsOf_append]
      split_ifs with same
      · subst same
        constructor
        · exact distinct.append (List.nodup_singleton _) (List.disjoint_singleton.mpr fresh)
        · simpa using allowed
      · simpa using capped id

theorem Steps.capped (steps : Steps graph limit count stage expanded last)
    (capped : Capped limit stage.visits) : Capped limit last.visits := by
  induction steps with
  | refl stage => exact capped
  | step first _ others => exact others (first.capped capped)

theorem Step.vertices (step : Step graph limit stage expanded next) :
    next.visits.map Visit.vertex = stage.visits.map Visit.vertex ++ expanded := by
  cases step with
  | skip closed => simp
  | expand unclosed live => simp

/-- The vertices expanded are those of the visits that were made since. -/
theorem Steps.vertices (steps : Steps graph limit count stage expanded last) :
    last.visits.map Visit.vertex = stage.visits.map Visit.vertex ++ expanded := by
  induction steps with
  | refl stage => simp
  | step first _ others => rw [others, first.vertices, List.append_assoc]

end Stage

open Stage

/-- The exploration ends whatever loops there are. It never looks at more arrivals than there are
vertices and edges, each counted as often as a vertex may be visited, and the one for the root. At
every stage no vertex has been expanded more often than the limit allows, and the depths at which it
was visited are distinct and no more than that. From every stage the steps go on until nothing is
left to be looked at, and the visits made by then are the result. -/
theorem visits_terminate {graph : Graph} {root : VertexId}
    (live : ∀ id, graph.edges.Reaches root id → graph.contains id = true) (limit : Nat) :
    ∃ final, visits graph limit root = .ok final ∧
      ∀ count expanded stage, Steps graph (max limit 1) count (.start root) expanded stage →
        count ≤ max limit 1 * (graph.ids.map fun id => (graph.children id).length + 1).sum + 1 ∧
          (∀ id, expanded.count id ≤ max limit 1 ∧
            (depthsOf stage.visits id).Nodup ∧ (depthsOf stage.visits id).length ≤ max limit 1) ∧
          ∃ more others, Steps graph (max limit 1) more stage others ⟨final, []⟩ := by
  rcases visits_spec live limit with ⟨final, result, -⟩
  refine ⟨final, result, ?_⟩
  intro count expanded stage steps
  have capped : Capped (max limit 1) stage.visits := by
    apply steps.capped
    intro id
    simp [start, depthsOf, visitsOf]
  refine ⟨?_, ?_, ?_⟩
  · have used := steps.count_add_room_le
    simp only [room, start, openVisits_nil, List.length_singleton] at used
    omega
  · intro id
    refine ⟨?_, capped id⟩
    have few := (capped id).2
    rw [length_depthsOf, steps.vertices] at few
    simpa [start] using few
  · apply steps_of_explore
    exact steps.explore_eq.symm.trans result

/-- A loop that leaves one value more on the stack each time round. -/
def climbingLoop : Graph where
  slots := #[
    some { kind := .single (.push (.const 1)), children := [⟨1⟩], parents := [⟨1⟩] },
    some { kind := .exprDecision .peek, children := [⟨0⟩, ⟨2⟩], parents := [⟨0⟩] },
    some { kind := .single .nop, children := [], parents := [⟨1⟩] }]
  root := some ⟨0⟩
  grid := .blank 0 0
  vars := #[]

theorem visits_terminate_climbingLoop :
    climbingLoop.validate = .ok () ∧ climbingLoop.stackSize = .ok .unbounded ∧
      ∃ final, visits climbingLoop 3 ⟨0⟩ = .ok final ∧
        ∃ count expanded, Steps climbingLoop 3 count (.start ⟨0⟩) expanded ⟨final, []⟩ ∧
          count ≤ 19 ∧
          expanded.count ⟨0⟩ ≤ 3 := by
  have valid : climbingLoop.validate = .ok () := by decide +kernel
  have size : climbingLoop.stackSize = .ok .unbounded :=
    Graph.stackSize_of_within? 20 (by decide +kernel)
  have consistent := (Graph.valid_iff.mp (Graph.validate_eq_ok_iff.mp valid)).1
  have live : ∀ id, climbingLoop.edges.Reaches ⟨0⟩ id → climbingLoop.contains id = true :=
    fun id path => consistent.reaches_live path rfl
  rcases visits_terminate live 3 with ⟨final, result, ran⟩
  rcases (ran 0 [] _ (.refl _)).2.2 with ⟨count, expanded, steps⟩
  rcases ran count expanded _ steps with ⟨few, capped, -⟩
  exact ⟨valid, size, final, result, count, expanded, steps, few, (capped ⟨0⟩).1⟩

end StackFlow.Promotion
