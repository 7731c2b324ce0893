import Mathlib
import StackFlow.Proofs.Graph.Consistency
import StackFlow.Proofs.Promotion.Kinds

/-!
# What the visits cover

Where the root reaches no missing vertex the exploration does not fail. It visits
every vertex that one of its visits leads to, and every value on one of its stacks
was pushed by an op of some visit, if it is not the value below the bottom. Each
visit is one at which some path from the root arrives.
-/

namespace StackFlow

/-- The op pushes a value of its own. An exchange only pushes what it has popped. -/
def Op.produces (op : Op) : Bool :=
  op.pushes ≠ 0 && op ≠ .swap

theorem Op.pushes_ne_zero {op : Op} (produces : op.produces = true) : op.pushes ≠ 0 := by
  simp only [Op.produces, Bool.and_eq_true, decide_eq_true_eq] at produces
  exact produces.1

namespace Promotion

variable {graph : Graph} {id : VertexId}

/-- The use pushes the value, which is named after its site. -/
def Use.Pushes (use : Use) (value : Value) : Prop :=
  value = .pushed use.site ∧ (value, Access.write) ∈ use.touches

/-- Values come to the stack from below, by a push, or from the stack before. -/
structure Use.From (use : Use) (stack : Stack) : Prop where
  sees : ∀ value, use.Sees value → value ∈ stack ∨ value = .underflow
  after : ∀ value ∈ use.after, value ∈ stack ∨ value = .underflow ∨ use.Pushes value
  bound : ∀ value ∈ use.bound, value ∈ use.inputs ∨ use.Pushes value
  touches : ∀ {value access}, (value, access) ∈ use.touches → access.isWrite = true →
    value ∈ use.inputs ∨ use.Pushes value

theorem valueAt_mem_or_underflow (stack : Stack) (place : Nat) :
    valueAt stack place ∈ stack ∨ valueAt stack place = .underflow := by
  cases present : stack[place]? with
  | none => exact .inr (by simp [valueAt, List.getD_eq_getElem?_getD, present])
  | some value =>
      refine .inl ?_
      rw [valueAt, List.getD_eq_getElem?_getD, present]
      exact List.mem_of_getElem? present

theorem mem_or_underflow_of_mem_topmost {count : Nat} {stack : Stack} {value : Value}
    (member : value ∈ topmost count stack) : value ∈ stack ∨ value = .underflow := by
  rcases mem_topmost.mp member with ⟨place, -, rfl⟩
  exact valueAt_mem_or_underflow stack place

section Sees

variable {site : Site} {stack : Stack} {value : Value}

theorem exists_valueAt_of_sees_ofOp {op : Op} (sees : (ofOp site op stack).Sees value) :
    ∃ place, value = valueAt stack place := by
  rcases sees with input | onTop
  · rw [inputs_ofOp] at input
    rcases mem_topmost.mp input with ⟨place, -, rfl⟩
    exact ⟨place, rfl⟩
  · rw [peeked_ofOp] at onTop
    split at onTop <;> cases onTop
    exact ⟨0, rfl⟩

theorem exists_valueAt_of_sees_ofExit {exit : Exit} (sees : (ofExit site exit stack).Sees value) :
    ∃ place, value = valueAt stack place := by
  refine ⟨0, ?_⟩
  rw [← top_eq_valueAt]
  rcases sees with input | onTop
  · simp only [ofExit] at input
    split at input
    · exact List.mem_singleton.mp input
    · cases input
  · simp only [ofExit] at onTop
    split at onTop
    · split at onTop <;> cases onTop
      rfl
    · cases onTop

end Sees

theorem ofOp_from (site : Site) (op : Op) (stack : Stack) : (ofOp site op stack).From stack where
  sees := by
    intro value sees
    rcases exists_valueAt_of_sees_ofOp sees with ⟨place, rfl⟩
    exact valueAt_mem_or_underflow stack place
  after := by
    intro value member
    cases op with
    | swap =>
        rcases List.mem_append.mp member with exchanged | below
        · exact (mem_or_underflow_of_mem_topmost (List.mem_reverse.mp exchanged)).imp_right .inl
        · exact .inl (List.mem_of_mem_drop below)
    | dup =>
        rcases List.mem_cons.mp member with rfl | below
        · exact .inr (.inr ⟨rfl, by simp [ofOp]⟩)
        · exact .inl below
    | _ =>
        rcases List.mem_append.mp member with pushed | below
        · exact .inr (.inr ⟨List.eq_of_mem_replicate pushed,
            List.mem_append_right _ (List.mem_map.mpr ⟨_, pushed, rfl⟩)⟩)
        · exact .inl (List.mem_of_mem_drop below)
  bound := by
    intro value member
    cases op with
    | swap => exact .inl member
    | dup =>
        have cases : value = top stack ∨ value = .pushed site := by simpa [ofOp] using member
        rcases cases with rfl | rfl
        · exact .inl (by simp [ofOp])
        · exact .inr ⟨rfl, by simp [ofOp]⟩
    | math operator | not | get | set =>
        rcases List.mem_append.mp member with input | pushed
        · exact .inl input
        · exact .inr ⟨List.eq_of_mem_replicate pushed,
            List.mem_append_right _ (List.mem_map.mpr ⟨_, pushed, rfl⟩)⟩
    | _ => cases member
  touches := by
    intro value access member writes
    have peeks : ∀ {peeked : Option Value},
        (value, access) ∈ peeked.toList.map (·, Access.read) → False := by
      intro peeked read
      rcases List.mem_map.mp read with ⟨_, -, same⟩
      rw [Prod.mk.injEq] at same
      rw [← same.2] at writes
      cases writes
    cases op with
    | swap =>
        rcases List.mem_append.mp member with read | exchanged
        · exact (peeks read).elim
        · rcases List.mem_map.mp exchanged with ⟨_, input, same⟩
          rw [Prod.mk.injEq] at same
          exact .inl (same.1 ▸ input)
    | dup =>
        rcases List.mem_append.mp member with read | own
        · exact (peeks read).elim
        · have cases : (value = top stack ∧ access = .read) ∨
              (value = .pushed site ∧ access = .write) := by
            simpa using own
          rcases cases with ⟨_, rfl⟩ | ⟨rfl, _⟩
          · cases writes
          · exact .inr ⟨rfl, by simp [ofOp]⟩
    | _ =>
        rcases List.mem_append.mp member with read | pushed
        · rcases List.mem_append.mp read with read | input
          · exact (peeks read).elim
          · rcases List.mem_map.mp input with ⟨_, -, same⟩
            rw [Prod.mk.injEq] at same
            rw [← same.2] at writes
            cases writes
        · rcases List.mem_map.mp pushed with ⟨_, listed, same⟩
          rw [Prod.mk.injEq] at same
          refine .inr ⟨same.1 ▸ List.eq_of_mem_replicate listed, List.mem_append_right _ ?_⟩
          exact List.mem_map.mpr ⟨_, same.1 ▸ listed, rfl⟩

theorem ofExit_from (site : Site) (exit : Exit) (stack : Stack) :
    (ofExit site exit stack).From stack where
  sees := by
    intro value sees
    rcases exists_valueAt_of_sees_ofExit sees with ⟨place, rfl⟩
    exact valueAt_mem_or_underflow stack place
  after := fun value member => .inl (List.mem_of_mem_drop member)
  bound := fun value member => by cases member
  touches := by
    intro value access member writes
    rcases List.mem_map.mp member with ⟨_, -, same⟩
    rw [Prod.mk.injEq] at same
    rw [← same.2] at writes
    cases writes

/-- The use of an op finds what the ops before it leave. -/
theorem getElem?_ofOps (index : Nat) {place : Nat} {ops : List Op} {op : Op}
    (present : ops[place]? = some op) (stack : Stack) :
    (ofOps id index ops stack)[place]? =
      some (ofOp ⟨id, index + place⟩ op
        (stackAfter stack (ofOps id index (ops.take place) stack))) := by
  induction ops generalizing index place stack with
  | nil => simp at present
  | cons first ops rest =>
      cases place with
      | zero =>
          exact congrArg (fun op => some (ofOp ⟨id, index⟩ op stack)) (Option.some.inj present)
      | succ place =>
          rw [ofOps, List.getElem?_cons_succ, rest (index + 1) present, List.take_succ_cons, ofOps,
            stackAfter_cons, Nat.add_assoc, Nat.add_comm 1]

theorem form_ofOps {index place : Nat} {ops : List Op} {stack : Stack} {use : Use}
    (found : (ofOps id index ops stack)[place]? = some use) :
    ∃ op before, ops[place]? = some op ∧ use = ofOp ⟨id, index + place⟩ op before := by
  have inside : place < ops.length := by simpa using (List.getElem?_eq_some_iff.mp found).1
  have present : ops[place]? = some (ops.get ⟨place, inside⟩) := List.getElem?_eq_getElem inside
  rw [getElem?_ofOps index present] at found
  exact ⟨_, _, present, (Option.some.inj found).symm⟩

/-- Each use of a vertex is the use of one of its ops or of its exit. -/
theorem form_ofKind {kind : Kind} {stack : Stack} {place : Nat} {use : Use}
    (found : (ofKind id kind stack)[place]? = some use) :
    (∃ op before, kind.ops[place]? = some op ∧ use = ofOp ⟨id, place⟩ op before) ∨
      place = kind.ops.length ∧ ∃ before, use = ofExit ⟨id, place⟩ kind.exit before := by
  by_cases inside : place < kind.ops.length
  · rw [ofKind, List.getElem?_append_left (by simpa using inside)] at found
    rcases form_ofOps found with ⟨op, before, present, same⟩
    exact .inl ⟨op, before, present, by simpa using same⟩
  · rw [ofKind, List.getElem?_append_right (by simpa using inside), length_ofOps] at found
    have last : place - kind.ops.length = 0 := by
      have bound := (List.getElem?_eq_some_iff.mp found).1
      simpa using bound
    have atEnd : place = kind.ops.length := by omega
    rw [last, List.getElem?_cons_zero, Option.some.injEq] at found
    exact .inr ⟨atEnd, _, by rw [← found, atEnd]⟩

theorem site_ofKind {kind : Kind} {stack : Stack} {place : Nat} {use : Use}
    (found : (ofKind id kind stack)[place]? = some use) : use.site = ⟨id, place⟩ := by
  rcases form_ofKind found with ⟨op, before, -, rfl⟩ | ⟨-, before, rfl⟩
  · exact site_ofOp ..
  · rfl

theorem pushes_ofOp_iff {site : Site} {op : Op} {stack : Stack} {value : Value} :
    (ofOp site op stack).Pushes value ↔ value = .pushed site ∧ op.produces = true := by
  rw [Use.Pushes, site_ofOp]
  apply and_congr_right
  rintro rfl
  cases op <;> simp [ofOp, Op.produces, Op.pushes]

theorem not_pushes_ofExit {site : Site} {exit : Exit} {stack : Stack} {value : Value} :
    ¬(ofExit site exit stack).Pushes value := by
  rintro ⟨-, touched⟩
  rcases List.mem_map.mp touched with ⟨_, -, same⟩
  cases (Prod.mk.injEq _ _ _ _ ▸ same).2

/-- A vertex pushes by its ops only, and by those that push. -/
theorem pushes_ofKind {kind : Kind} {stack : Stack} {use : Use} {value : Value}
    (member : use ∈ ofKind id kind stack) (pushes : use.Pushes value) :
    ∃ (place : Nat) (op : Op), kind.ops[place]? = some op ∧ value = .pushed ⟨id, place⟩ ∧
      op.produces = true := by
  rcases List.getElem?_of_mem member with ⟨place, found⟩
  rcases form_ofKind found with ⟨op, before, present, rfl⟩ | ⟨-, before, rfl⟩
  · exact ⟨place, op, present, pushes_ofOp_iff.mp pushes⟩
  · exact absurd pushes not_pushes_ofExit

section Along

variable {holds : Value → Prop} (underflow : holds .underflow)
include underflow

theorem Use.From.along {use : Use} {stack : Stack} (comes : use.From stack)
    (enters : ∀ value ∈ stack, holds value) (pushed : ∀ value, use.Pushes value → holds value) :
    (∀ value, use.Sees value → holds value) ∧ ∀ value ∈ use.after, holds value := by
  constructor
  · intro value sees
    rcases comes.sees value sees with old | rfl
    · exact enters value old
    · exact underflow
  · intro value member
    rcases comes.after value member with old | rfl | new
    · exact enters value old
    · exact underflow
    · exact pushed value new

theorem along_ofOps {index : Nat} {ops : List Op} {stack : Stack}
    (enters : ∀ value ∈ stack, holds value)
    (pushed : ∀ use ∈ ofOps id index ops stack, ∀ value, use.Pushes value → holds value) :
    (∀ use ∈ ofOps id index ops stack, ∀ value, use.Sees value → holds value) ∧
      ∀ value ∈ stackAfter stack (ofOps id index ops stack), holds value := by
  induction ops generalizing index stack with
  | nil => exact ⟨by simp [ofOps], enters⟩
  | cons op ops rest =>
      have first :=
        (ofOp_from ⟨id, index⟩ op stack).along underflow enters (pushed _ (List.mem_cons_self ..))
      have others := rest first.2 fun use member => pushed use (List.mem_cons_of_mem _ member)
      refine ⟨?_, by simpa only [ofOps, stackAfter_cons] using others.2⟩
      intro use member
      rcases List.mem_cons.mp member with rfl | member
      · exact first.1
      · exact others.1 use member

/-- A property of values that pushes give holds all along a vertex if it holds on entry. -/
theorem along_ofKind {kind : Kind} {stack : Stack} (enters : ∀ value ∈ stack, holds value)
    (pushed : ∀ use ∈ ofKind id kind stack, ∀ value, use.Pushes value → holds value) :
    (∀ use ∈ ofKind id kind stack, ∀ value, use.Sees value → holds value) ∧
      ∀ value ∈ stackAfter stack (ofKind id kind stack), holds value := by
  have ops :=
    along_ofOps underflow enters fun use member => pushed use (List.mem_append_left _ member)
  have exit := (ofExit_from ⟨id, kind.ops.length⟩ kind.exit _).along underflow ops.2
    (pushed _ (List.mem_append_right _ (List.mem_singleton_self _)))
  constructor
  · intro use member
    rcases List.mem_append.mp member with inOps | atExit
    · exact ops.1 use inOps
    · exact List.mem_singleton.mp atExit ▸ exit.1
  · simpa only [ofKind, stackAfter_append_single] using exit.2

end Along

theorem uses_eq {visit : Visit} {vertex : Vertex}
    (found : graph.vertex? visit.vertex = some vertex) :
    visit.uses graph = ofKind visit.vertex vertex.kind visit.stack := by
  simp [Visit.uses, found]

theorem exists_vertex_of_mem_uses {visit : Visit} {use : Use} (member : use ∈ visit.uses graph) :
    ∃ vertex, graph.vertex? visit.vertex = some vertex := by
  cases found : graph.vertex? visit.vertex with
  | none => simp [Visit.uses, found] at member
  | some vertex => exact ⟨vertex, rfl⟩

/-- The value is pushed on one of the visits, or it lies below the bottom. -/
def Pushed (graph : Graph) (visits : List Visit) (value : Value) : Prop :=
  value = .underflow ∨ ∃ visit ∈ visits, ∃ use ∈ visit.uses graph, use.Pushes value

theorem Pushed.mono {visits others : List Visit} {value : Value}
    (pushed : Pushed graph visits value) (within : ∀ visit ∈ visits, visit ∈ others) :
    Pushed graph others value :=
  pushed.imp_right fun ⟨visit, member, use⟩ => ⟨visit, within visit member, use⟩

/-- All along a visit the values are pushed ones if they are so on entry. -/
theorem pushed_along {visits : List Visit} {visit : Visit} (member : visit ∈ visits)
    (enters : ∀ value ∈ visit.stack, Pushed graph visits value) :
    (∀ use ∈ visit.uses graph, ∀ value, use.Sees value → Pushed graph visits value) ∧
      ∀ value ∈ stackAfter visit.stack (visit.uses graph), Pushed graph visits value := by
  cases found : graph.vertex? visit.vertex with
  | none => simpa [Visit.uses, found] using enters
  | some vertex =>
      rw [uses_eq found]
      refine along_ofKind (.inl rfl) enters fun use inUses value pushes =>
        .inr ⟨visit, member, use, ?_, pushes⟩
      rwa [uses_eq found]

theorem exists_visit_of_isClosed {limit : Nat} {visits : List Visit} {arrival : Visit}
    (positive : 0 < limit) (closed : isClosed limit visits arrival = true) :
    ∃ visit ∈ visits, visit.vertex = arrival.vertex := by
  have known : visitsOf visits arrival.vertex ≠ [] := by
    intro empty
    simp only [isClosed, empty, List.any_nil, Bool.false_or, List.length_nil,
      decide_eq_true_eq] at closed
    omega
  rcases List.exists_mem_of_ne_nil _ known with ⟨visit, member⟩
  rcases List.mem_filter.mp member with ⟨inVisits, same⟩
  exact ⟨visit, inVisits, by simpa using same⟩

/-- A path from the root arrives at the vertex with the symbolic stack. -/
inductive Arrival (graph : Graph) (root : VertexId) : Visit → Prop where
  | start : Arrival graph root ⟨root, []⟩
  | next {visit arrival : Visit} : Arrival graph root visit → arrival ∈ visit.arrivals graph →
      Arrival graph root arrival

theorem Arrival.reaches {root : VertexId} {visit : Visit} (arrives : Arrival graph root visit) :
    graph.edges.Reaches root visit.vertex := by
  induction arrives with
  | start => exact .refl root
  | next _ leads reached =>
      rcases List.mem_map.mp leads with ⟨child, edge, rfl⟩
      exact reached.tail edge

/-- What holds of visits among which nothing is missing. -/
structure Explored (graph : Graph) (visits : List Visit) : Prop where
  arrives : ∀ visit ∈ visits, ∀ arrival ∈ visit.arrivals graph, ∃ other ∈ visits,
    other.vertex = arrival.vertex
  pushed : ∀ visit ∈ visits, ∀ value ∈ visit.stack, Pushed graph visits value

/-- The invariant of the exploration: what a visit leads to was visited already or waits among the
arrivals. -/
structure Exploring (graph : Graph) (root : VertexId) (visits arrivals : List Visit) : Prop where
  arrives : ∀ visit ∈ visits ++ arrivals, Arrival graph root visit
  covered : ∀ visit ∈ visits, ∀ arrival ∈ visit.arrivals graph,
    (∃ other ∈ visits, other.vertex = arrival.vertex) ∨
      ∃ other ∈ arrivals, other.vertex = arrival.vertex
  pushed : ∀ visit ∈ visits ++ arrivals, ∀ value ∈ visit.stack, Pushed graph visits value

section Exploration

variable {root : VertexId} {visits rest : List Visit} {arrival : Visit}

theorem Exploring.skip (exploring : Exploring graph root visits (arrival :: rest))
    (known : ∃ visit ∈ visits, visit.vertex = arrival.vertex) :
    Exploring graph root visits rest where
  arrives := by
    intro visit member
    apply exploring.arrives visit
    exact (List.mem_append.mp member).elim (List.mem_append_left _)
      fun waits => List.mem_append_right _ (List.mem_cons_of_mem _ waits)
  covered := by
    intro visit member other leads
    rcases exploring.covered visit member other leads with done | ⟨waiting, listed, same⟩
    · exact .inl done
    · rcases List.mem_cons.mp listed with rfl | listed
      · exact .inl (same ▸ known)
      · exact .inr ⟨waiting, listed, same⟩
  pushed := by
    intro visit member
    apply exploring.pushed visit
    rcases List.mem_append.mp member with done | waits
    · exact List.mem_append_left _ done
    · exact List.mem_append_right _ (List.mem_cons_of_mem _ waits)

theorem Exploring.visit (exploring : Exploring graph root visits (arrival :: rest)) :
    Exploring graph root (visits ++ [arrival]) (arrival.arrivals graph ++ rest) := by
  have grows : ∀ visit ∈ visits, visit ∈ visits ++ [arrival] := fun visit => List.mem_append_left _
  have pushed : ∀ visit ∈ visits ++ arrival :: rest, ∀ value ∈ visit.stack,
      Pushed graph (visits ++ [arrival]) value :=
    fun visit member value inside => (exploring.pushed visit member value inside).mono grows
  have own : ∀ value ∈ arrival.stack, Pushed graph (visits ++ [arrival]) value :=
    pushed arrival (by simp)
  refine ⟨?_, ?_, ?_⟩
  · intro other member
    have before : ∀ visit ∈ visits ++ arrival :: rest, Arrival graph root visit := exploring.arrives
    rcases List.mem_append.mp member with done | waits
    · exact before other (by simpa using (List.mem_append.mp done).imp_right (by simp +contextual))
    · rcases List.mem_append.mp waits with new | waits
      · exact (before arrival (by simp)).next new
      · exact before other (by simp [waits])
  · intro visit member other leads
    rcases List.mem_append.mp member with done | new
    · rcases exploring.covered visit done other leads with
        ⟨found, listed, same⟩ | ⟨found, listed, same⟩
      · exact .inl ⟨found, grows found listed, same⟩
      · rcases List.mem_cons.mp listed with rfl | listed
        · exact .inl ⟨found, by simp, same⟩
        · exact .inr ⟨found, List.mem_append_right _ listed, same⟩
    · rw [List.mem_singleton.mp new] at leads
      exact .inr ⟨other, List.mem_append_left _ leads, rfl⟩
  · intro visit member
    rcases List.mem_append.mp member with done | waits
    · exact pushed visit (by simpa using (List.mem_append.mp done).imp_right (by simp +contextual))
    · rcases List.mem_append.mp waits with new | waits
      · rcases List.mem_map.mp new with ⟨child, -, rfl⟩
        exact (pushed_along (by simp) own).2
      · exact pushed visit (by simp [waits])

variable (live : ∀ id, graph.edges.Reaches root id → graph.contains id = true)

include live

/-- Where the root reaches no missing vertex the exploration ends. It keeps the visits it began with
and misses nothing. -/
theorem explore_spec {limit : Nat} (positive : 0 < limit) {arrivals : List Visit}
    (exploring : Exploring graph root visits arrivals) :
    ∃ final, explore graph limit visits arrivals = .ok final ∧ (∀ visit ∈ visits, visit ∈ final) ∧
      (∀ visit ∈ final, Arrival graph root visit) ∧ Explored graph final := by
  fun_induction explore graph limit visits arrivals with
  | case1 visits =>
      refine ⟨visits, rfl, fun _ member => member, ?_, ?_, fun visit member => ?_⟩
      · exact fun visit member => exploring.arrives visit (List.mem_append_left _ member)
      · intro visit member arrival leads
        simpa using exploring.covered visit member arrival leads
      · exact exploring.pushed visit (List.mem_append_left _ member)
  | case2 visits arrival rest closed ih =>
      exact ih (exploring.skip (exists_visit_of_isClosed positive closed))
  | case3 visits arrival rest unclosed _ ih =>
      rcases ih exploring.visit with ⟨final, result, keeps, explored⟩
      exact ⟨final, result, fun visit member => keeps visit (List.mem_append_left _ member),
        explored⟩
  | case4 visits arrival rest unclosed dead =>
      exact absurd (live _ (exploring.arrives arrival (by simp)).reaches) dead

/-- All visits of a program. The first is that of the root with an empty stack. -/
theorem visits_spec (limit : Nat) :
    ∃ final, Promotion.visits graph limit root = .ok final ∧ ⟨root, []⟩ ∈ final ∧
      (∀ visit ∈ final, Arrival graph root visit) ∧ Explored graph final := by
  have begins : Exploring graph root [] [⟨root, []⟩] := ⟨by simpa using .start, by simp, by simp⟩
  have positive : 0 < max limit 1 := by omega
  have unclosed : isClosed (max limit 1) [] ⟨root, []⟩ = false := by
    simp [isClosed, visitsOf]
  rcases explore_spec live positive begins.visit with ⟨final, result, keeps, explored⟩
  refine ⟨final, ?_, keeps _ (by simp), explored⟩
  rw [Promotion.visits, explore, unclosed, if_neg (by simp), if_pos (live root (.refl root))]
  exact result

end Exploration

end Promotion

end StackFlow
