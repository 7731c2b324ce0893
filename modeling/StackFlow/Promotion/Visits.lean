import StackFlow.Promotion.Symbolic

/-!
# Visits

Which vertices are entered with which symbolic stacks. A vertex is visited once for each depth at
which it is entered, up to a limit on the number of depths. What a visit leaves on the stack arrives
at all children of the vertex; an arrival that does not make a visit ends there.
-/

namespace StackFlow.Promotion

/-- A vertex entered with a symbolic stack. -/
structure Visit where
  vertex : VertexId
  stack : Stack
deriving DecidableEq

/-- The visits of one vertex. -/
def visitsOf (visits : List Visit) (id : VertexId) : List Visit :=
  visits.filter (·.vertex = id)

/-- No visit is made: there was one at the same depth, or there were as many as the limit allows. -/
def isClosed (limit : Nat) (visits : List Visit) (arrival : Visit) : Bool :=
  let known := visitsOf visits arrival.vertex
  known.any (·.stack.length = arrival.stack.length) || limit ≤ known.length

/-- The uses of a visit. -/
def Visit.uses (graph : Graph) (visit : Visit) : List Use :=
  match graph.vertex? visit.vertex with
  | some vertex => ofKind visit.vertex vertex.kind visit.stack
  | none => []

/-- What a visit leads to: its children with the stack that it leaves. -/
def Visit.arrivals (graph : Graph) (visit : Visit) : List Visit :=
  (graph.children visit.vertex).map (⟨·, stackAfter visit.stack (visit.uses graph)⟩)

/-- The visits that the limit still allows to the listed vertices, each weighted with what it may
lead to. -/
def openVisits (graph : Graph) (limit : Nat) (visits : List Visit) : List VertexId → Nat
  | [] => 0
  | id :: ids =>
    (limit - (visitsOf visits id).length) * ((graph.children id).length + 1) +
      openVisits graph limit visits ids

theorem length_visitsOf_append (visits : List Visit) (visit : Visit) (id : VertexId) :
    (visitsOf (visits ++ [visit]) id).length =
      (visitsOf visits id).length + if visit.vertex = id then 1 else 0 := by
  by_cases same : visit.vertex = id <;> simp [visitsOf, same]

theorem openVisits_append_le (graph : Graph) (limit : Nat) (visits : List Visit) (visit : Visit)
    (ids : List VertexId) :
    openVisits graph limit (visits ++ [visit]) ids ≤ openVisits graph limit visits ids := by
  induction ids with
  | nil => exact Nat.le_refl 0
  | cons id ids ih =>
    simp only [openVisits, length_visitsOf_append]
    exact Nat.add_le_add (Nat.mul_le_mul_right _ (by omega)) ih

theorem openVisits_append_lt (graph : Graph) {limit : Nat} {visits : List Visit} {visit : Visit}
    {ids : List VertexId} (member : visit.vertex ∈ ids)
    (allowed : (visitsOf visits visit.vertex).length < limit) :
    openVisits graph limit (visits ++ [visit]) ids + (graph.children visit.vertex).length
      < openVisits graph limit visits ids := by
  induction ids with
  | nil => simp at member
  | cons id ids ih =>
    simp only [openVisits, length_visitsOf_append]
    by_cases same : visit.vertex = id
    · subst same
      have others := openVisits_append_le graph limit visits visit ids
      obtain ⟨spare, spared⟩ : ∃ spare, limit - (visitsOf visits visit.vertex).length = spare + 1 :=
        ⟨limit - (visitsOf visits visit.vertex).length - 1, by omega⟩
      have used : limit - ((visitsOf visits visit.vertex).length + 1) = spare := by omega
      simp only [if_true, spared, used, Nat.add_mul, Nat.one_mul]
      omega
    · have others := ih ((List.mem_cons.mp member).resolve_left same)
      simp only [same, if_false, Nat.add_zero]
      omega

/-- Goes through the arrivals and all that they lead to, and gives the visits that were made. -/
def explore (graph : Graph) (limit : Nat) (visits : List Visit) (arrivals : List Visit) :
    Except GraphError (List Visit) :=
  match arrivals with
  | [] => .ok visits
  | arrival :: rest =>
    if isClosed limit visits arrival then explore graph limit visits rest
    else if graph.contains arrival.vertex then
      explore graph limit (visits ++ [arrival]) (arrival.arrivals graph ++ rest)
    else .error (.unknownVertex arrival.vertex)
termination_by openVisits graph limit visits graph.ids + arrivals.length
decreasing_by
  · simp
  · rename_i unclosed live
    have member : arrival.vertex ∈ graph.ids := Graph.mem_ids.mpr live
    have allowed : (visitsOf visits arrival.vertex).length < limit := by
      simp only [isClosed, Bool.or_eq_true, not_or, decide_eq_true_eq] at unclosed
      omega
    have shrinks := openVisits_append_lt graph member allowed
    simp only [Visit.arrivals, List.length_append, List.length_map, List.length_cons]
    omega

/-- All visits of the program, from the root with an empty stack. At least one visit to each vertex
is allowed. -/
def visits (graph : Graph) (limit : Nat) (root : VertexId) : Except GraphError (List Visit) :=
  explore graph (max limit 1) [] [⟨root, []⟩]

end StackFlow.Promotion
