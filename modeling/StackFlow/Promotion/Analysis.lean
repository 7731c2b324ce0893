import StackFlow.Digraph
import StackFlow.Promotion.Visits

/-!
# Which values can leave the stack

A value can live in a variable unless it is tainted. A value is tainted if two different values meet
in one operand of an op, if a vertex is entered twice at one depth with different values, if it
occurs twice on one stack, if it lies below everything that was pushed, or if its stack arrives at a
vertex that is entered at too many depths. Values that are bound together by an op are tainted
together.
-/

namespace StackFlow.Promotion

/-- The members of both lists at places where the lists differ. -/
def differences (first second : List Value) : List Value :=
  ((first.zip second).filter fun (one, other) => one ≠ other).flatMap fun (one, other) =>
    [one, other]

/-- The values that occur more than once. -/
def repeated (stack : Stack) : List Value :=
  stack.filter fun value => 1 < stack.count value

/-- The values that meet with different ones in two uses of a site. -/
def Use.clashes (first second : Use) : List Value :=
  differences first.inputs second.inputs ++ differences first.peeked.toList second.peeked.toList

/-- What is known once all visits have been made. -/
structure Facts where
  graph : Graph
  visits : List Visit

namespace Facts

/-- The uses of the first visit of a vertex. They decide how the vertex is changed. -/
def record (facts : Facts) (id : VertexId) : List Use :=
  match facts.visits.find? (·.vertex = id) with
  | some visit => visit.uses facts.graph
  | none => []

/-- The first use of a site. -/
def use? (facts : Facts) (site : Site) : Option Use :=
  (facts.record site.vertex)[site.index]?

/-- The uses of all visits, in order. -/
def uses (facts : Facts) : List Use :=
  facts.visits.flatMap (Visit.uses facts.graph)

/-- The values that meet with different ones in an op, in this visit and in the first. -/
def operandClashes (facts : Facts) (visit : Visit) : List Value :=
  ((facts.record visit.vertex).zip (visit.uses facts.graph)).flatMap fun (first, second) =>
    first.clashes second

/-- The values tainted by an arrival: those that differ from what arrived before at the same depth,
or all if the vertex is entered at too many depths. -/
def arrivalClashes (facts : Facts) (arrival : Visit) : List Value :=
  let known := visitsOf facts.visits arrival.vertex
  match known.find? (·.stack.length = arrival.stack.length) with
  | some visit => differences visit.stack arrival.stack
  | none => known.flatMap Visit.stack ++ arrival.stack

/-- The values that are tainted by themselves. -/
def seeds (facts : Facts) : List Value :=
  .underflow :: (facts.visits.flatMap facts.operandClashes
    ++ facts.uses.flatMap (repeated ·.after)
    ++ (facts.visits.flatMap (Visit.arrivals facts.graph)).flatMap facts.arrivalClashes)

/-- The groups of values that are tainted together. -/
def groups (facts : Facts) : List (List Value) :=
  (facts.uses.map Use.bound).eraseDups

/-- Values are neighbours if some op binds them together. -/
def bonds (facts : Facts) : Digraph Value :=
  let groups := facts.groups
  { next := fun value => (groups.filter (value ∈ ·)).flatten
    support := groups.flatten
    next_eq_nil := by
      intro value absent
      have unbound : groups.filter (value ∈ ·) = [] := by
        rw [List.filter_eq_nil_iff]
        intro group member bound
        exact absent (List.mem_flatten.mpr ⟨group, member, by simpa using bound⟩)
      simp [unbound] }

/-- The values that have to stay on the stack. -/
def tainted (facts : Facts) : List Value :=
  facts.bonds.search .breadthFirst facts.seeds.eraseDups

/-- The values that something puts on the stack, in the order in which that first happens. -/
def written (facts : Facts) : List Value :=
  (((facts.uses.flatMap Use.touches).filter (·.2.isWrite)).map (·.1)).eraseDups

/-- The values that can live in variables. -/
def promoted (facts : Facts) : List Value :=
  let tainted := facts.tainted
  facts.written.filter (· ∉ tainted)

end Facts

end StackFlow.Promotion
