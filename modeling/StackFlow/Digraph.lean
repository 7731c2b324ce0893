/-!
# Searching a directed graph

A directed graph is given by the successors of each node, of which only finitely many nodes have
any. `search` lists the nodes that can be reached from some roots, each once and in the order in
which they are visited; the main statement, `mem_search_iff`, says that it lists exactly those.
-/

namespace StackFlow

/-- A directed graph in which finitely many nodes have successors. -/
structure Digraph (α : Type) where
  /-- Successors, in order and once for each edge. -/
  next : α → List α
  /-- The nodes that may have successors. -/
  support : List α
  /-- No other node has any. -/
  next_eq_nil : ∀ node, node ∉ support → next node = []

namespace Digraph

variable {α : Type}

/-- A path of any length leads from one node to another. -/
inductive Reaches (graph : Digraph α) : α → α → Prop where
  | refl (node : α) : Reaches graph node node
  | step {first second last : α} :
      second ∈ graph.next first → Reaches graph second last → Reaches graph first last

/-- Paths can be joined. -/
theorem Reaches.trans {graph : Digraph α} {first second last : α}
    (before : graph.Reaches first second) (after : graph.Reaches second last) :
    graph.Reaches first last := by
  induction before with
  | refl _ => exact after
  | step edge _ ih => exact .step edge (ih after)

/-- A path can be prolonged by an edge at its end. -/
theorem Reaches.tail {graph : Digraph α} {first second last : α}
    (before : graph.Reaches first second) (edge : last ∈ graph.next second) :
    graph.Reaches first last :=
  before.trans (.step edge (.refl last))

/-- Where a search puts newly found nodes. -/
inductive Order where
  /-- Behind all nodes that wait, so that near nodes come first. -/
  | breadthFirst
  /-- In front of all nodes that wait, so that a path is followed to its end. -/
  | depthFirst

/-- The waiting nodes once new ones have been added. -/
def Order.schedule : Order → List α → List α → List α
  | .breadthFirst, found, waiting => waiting ++ found
  | .depthFirst, found, waiting => found ++ waiting

@[simp]
theorem Order.mem_schedule (order : Order) (node : α) (found waiting : List α) :
    node ∈ order.schedule found waiting ↔ node ∈ found ∨ node ∈ waiting := by
  cases order <;> simp [schedule, or_comm]

@[simp]
theorem Order.length_schedule (order : Order) (found waiting : List α) :
    (order.schedule found waiting).length = found.length + waiting.length := by
  cases order <;> simp [schedule, Nat.add_comm]

variable [DecidableEq α]

/-- The edges that leave the listed nodes which are not done, one more for each such node. -/
def pendingEdges (graph : Digraph α) (done nodes : List α) : Nat :=
  match nodes with
  | [] => 0
  | node :: nodes =>
    (if node ∈ done then 0 else (graph.next node).length + 1) + graph.pendingEdges done nodes

theorem pendingEdges_cons_le (graph : Digraph α) (done nodes : List α) (node : α) :
    graph.pendingEdges (node :: done) nodes ≤ graph.pendingEdges done nodes := by
  induction nodes with
  | nil => simp [pendingEdges]
  | cons other nodes ih =>
    by_cases known : other ∈ done
    · simpa [pendingEdges, known] using ih
    · by_cases same : other = node <;> simp [pendingEdges, known, same] <;> omega

theorem pendingEdges_cons_lt (graph : Digraph α) {done nodes : List α} {node : α}
    (member : node ∈ nodes) (fresh : node ∉ done) :
    graph.pendingEdges (node :: done) nodes + (graph.next node).length <
      graph.pendingEdges done nodes := by
  induction nodes with
  | nil => simp at member
  | cons other nodes ih =>
    have shrinks := graph.pendingEdges_cons_le done nodes node
    by_cases same : other = node
    · subst same
      simp only [pendingEdges, List.mem_cons, true_or, if_true, fresh, if_false]
      omega
    · have inner := ih ((List.mem_cons.mp member).resolve_left (Ne.symm same))
      by_cases known : other ∈ done <;> simp [pendingEdges, known, same] <;> omega

/-- Visits the waiting nodes and all that can be reached from them, except what is done already.
Done nodes are kept in reverse. -/
def visit (graph : Digraph α) (order : Order) (done waiting : List α) : List α :=
  match waiting with
  | [] => done.reverse
  | node :: waiting =>
    if node ∈ done then graph.visit order done waiting
    else graph.visit order (node :: done) (order.schedule (graph.next node) waiting)
termination_by graph.pendingEdges done graph.support + waiting.length
decreasing_by
  · simp
  · rename_i fresh
    simp only [Order.length_schedule, List.length_cons]
    by_cases supported : node ∈ graph.support
    · have := graph.pendingEdges_cons_lt supported fresh
      omega
    · have := graph.pendingEdges_cons_le done graph.support node
      simp only [graph.next_eq_nil node supported, List.length_nil]
      omega

/-- The nodes that can be reached from the roots, in the order of the search. -/
def search (graph : Digraph α) (order : Order) (roots : List α) : List α :=
  graph.visit order [] roots

theorem mem_visit_of_mem (graph : Digraph α) (order : Order) (done waiting : List α) {node : α}
    (member : node ∈ done ∨ node ∈ waiting) : node ∈ graph.visit order done waiting := by
  fun_induction visit graph order done waiting with
  | case1 done => simpa using member
  | case2 done first waiting known ih =>
    apply ih
    rcases member with member | member
    · exact .inl member
    · rcases List.mem_cons.mp member with same | member
      · exact .inl (same ▸ known)
      · exact .inr member
  | case3 done first waiting _ ih =>
    apply ih
    rcases member with member | member
    · exact .inl (List.mem_cons_of_mem _ member)
    · rcases List.mem_cons.mp member with same | member
      · exact .inl (by simp [same])
      · exact .inr (by simp [member])

theorem next_mem_visit (graph : Digraph α) (order : Order) (done waiting : List α)
    (closed : ∀ node ∈ done, ∀ target ∈ graph.next node, target ∈ done ∨ target ∈ waiting)
    {node target : α} (member : node ∈ graph.visit order done waiting)
    (edge : target ∈ graph.next node) : target ∈ graph.visit order done waiting := by
  fun_induction visit graph order done waiting with
  | case1 done =>
    simp only [List.mem_reverse] at member ⊢
    simpa using closed node member target edge
  | case2 done first waiting known ih =>
    refine ih ?_ member
    intro source inDone target edge
    rcases closed source inDone target edge with inDone | waits
    · exact .inl inDone
    · rcases List.mem_cons.mp waits with same | waits
      · exact .inl (same ▸ known)
      · exact .inr waits
  | case3 done first waiting fresh ih =>
    refine ih ?_ member
    intro source inDone target edge
    rcases List.mem_cons.mp inDone with same | inDone
    · subst same
      exact .inr (by simp [edge])
    · rcases closed source inDone target edge with inDone | waits
      · exact .inl (List.mem_cons_of_mem _ inDone)
      · rcases List.mem_cons.mp waits with same | waits
        · exact .inl (by simp [same])
        · exact .inr (by simp [waits])

theorem reaches_of_mem_visit (graph : Digraph α) (order : Order) (done waiting : List α) {node : α}
    (member : node ∈ graph.visit order done waiting) :
    node ∈ done ∨ ∃ root ∈ waiting, graph.Reaches root node := by
  fun_induction visit graph order done waiting with
  | case1 done => exact .inl (by simpa using member)
  | case2 done first waiting _ ih =>
    rcases ih member with inDone | ⟨root, waits, path⟩
    · exact .inl inDone
    · exact .inr ⟨root, List.mem_cons_of_mem _ waits, path⟩
  | case3 done first waiting _ ih =>
    rcases ih member with inDone | ⟨root, waits, path⟩
    · rcases List.mem_cons.mp inDone with same | inDone
      · exact .inr ⟨first, by simp, same ▸ .refl _⟩
      · exact .inl inDone
    · rcases (order.mem_schedule root _ _).mp waits with edge | waits
      · exact .inr ⟨first, by simp, .step edge path⟩
      · exact .inr ⟨root, List.mem_cons_of_mem _ waits, path⟩

/-- A search lists exactly the nodes that can be reached from its roots. -/
theorem mem_search_iff (graph : Digraph α) (order : Order) (roots : List α) (node : α) :
    node ∈ graph.search order roots ↔ ∃ root ∈ roots, graph.Reaches root node := by
  constructor
  · intro member
    simpa using graph.reaches_of_mem_visit order [] roots member
  · rintro ⟨root, isRoot, path⟩
    have start : root ∈ graph.search order roots :=
      graph.mem_visit_of_mem order [] roots (.inr isRoot)
    clear isRoot
    induction path with
    | refl _ => exact start
    | step edge _ ih => exact ih (graph.next_mem_visit order [] roots (by simp) start edge)

theorem nodup_visit (graph : Digraph α) (order : Order) (done waiting : List α)
    (nodup : done.Nodup) : (graph.visit order done waiting).Nodup := by
  fun_induction visit graph order done waiting with
  | case1 done => exact List.pairwise_reverse.mpr (nodup.imp Ne.symm)
  | case2 done first waiting _ ih => exact ih nodup
  | case3 done first waiting fresh ih => exact ih (List.nodup_cons.mpr ⟨fresh, nodup⟩)

/-- A search lists no node twice. -/
theorem nodup_search (graph : Digraph α) (order : Order) (roots : List α) :
    (graph.search order roots).Nodup :=
  graph.nodup_visit order [] roots List.nodup_nil

end Digraph

end StackFlow
