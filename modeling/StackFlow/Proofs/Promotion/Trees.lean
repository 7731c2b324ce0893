import Mathlib
import StackFlow.Proofs.Effects
import StackFlow.Proofs.Graph.Tree
import StackFlow.Proofs.Promotion.Rewriting

/-!
# Trees lose their stack

In a tree each vertex is entered by one path, so it has one visit, with which nothing
can clash. No op is passed twice on that path, so no value is on the stack twice. If
moreover no op finds too few values, nothing is tainted but what lies below the
bottom, which is never met. Every value moves to a variable then, and no op and no
exit touches the stack any more.
-/

namespace StackFlow

/-- The stack is deep enough for what the op pops and looks at. -/
def Op.Supplied (op : Op) (depth : Nat) : Prop :=
  op.pops ≤ depth ∧ (op.readsStack = true → 0 < depth)

/-- Each op of a run is supplied by what the ops before it leave. -/
def Op.SuppliedAll : List Op → Nat → Prop
  | [], _ => True
  | op :: ops, depth => op.Supplied depth ∧ SuppliedAll ops (op.depthAfter depth)

/-- The stack is deep enough for the choice of the exit. -/
def Exit.Supplied : Exit → Nat → Prop
  | .popped, depth => 0 < depth
  | .tested test, depth => test.readsStack = true → 0 < depth
  | .next, _ | .random, _ => True

def Kind.Supplied (kind : Kind) (depth : Nat) : Prop :=
  Op.SuppliedAll kind.ops depth ∧ kind.exit.Supplied (kind.depthAfterOps depth)

/-- On no path from the root anything is popped or looked at that is not there. -/
def Graph.Supplied (graph : Graph) : Prop :=
  ∀ {path id depth vertex}, graph.Enters path id depth → graph.vertex? id = some vertex →
    vertex.kind.Supplied depth

section Decidable

instance Op.decidableSupplied (op : Op) (depth : Nat) : Decidable (op.Supplied depth) :=
  inferInstanceAs (Decidable (_ ∧ _))

instance Op.decidableSuppliedAll :
    (ops : List Op) → (depth : Nat) → Decidable (Op.SuppliedAll ops depth)
  | [], _ => .isTrue trivial
  | op :: ops, depth =>
    have := decidableSuppliedAll ops (op.depthAfter depth)
    inferInstanceAs (Decidable (_ ∧ _))

instance Exit.decidableSupplied : (exit : Exit) → (depth : Nat) → Decidable (exit.Supplied depth)
  | .popped, depth => inferInstanceAs (Decidable (0 < depth))
  | .tested test, depth => inferInstanceAs (Decidable (test.readsStack = true → 0 < depth))
  | .next, _ | .random, _ => .isTrue trivial

instance Kind.decidableSupplied (kind : Kind) (depth : Nat) : Decidable (kind.Supplied depth) :=
  inferInstanceAs (Decidable (_ ∧ _))

end Decidable

/-- It is enough to look at a table of vertices and depths that no step leaves. -/
theorem Graph.supplied_of_table {graph : Graph} (table : List (VertexId × Nat))
    (start : ∀ root ∈ graph.root, (root, 0) ∈ table)
    (closed : ∀ point ∈ table, ∀ vertex ∈ graph.vertex? point.1, vertex.kind.Supplied point.2 ∧
      ∀ next ∈ vertex.children, (next, vertex.kind.depthAfter point.2) ∈ table) :
    graph.Supplied := by
  have inTable {path id depth} (enters : graph.Enters path id depth) : (id, depth) ∈ table := by
    induction enters with
    | root isRoot => exact start _ isRoot
    | child _ found isChild ih => exact (closed _ ih _ found).2 _ isChild
  intro path id depth vertex enters found
  exact (closed _ (inTable enters) vertex found).1

theorem Expr.has_stack (expr : Expr) : expr.effects.has .stack = expr.readsStack := by
  induction expr with
  | const value | var id | peek => rfl
  | not operand ih | boolCast operand ih => exact ih
  | binary op lhs rhs left right => simp_all [effects, readsStack, any, isPeek]
  | memory x y column row =>
      simp only [effects, Effects.has_union, column, row]
      rfl

/-- An op keeps off the stack if it pops nothing, pushes nothing and looks at nothing. -/
theorem Op.has_stack_eq_false {op : Op} (pops : op.pops = 0) (pushes : op.pushes = 0)
    (free : op.readsStack = false) : op.effects.has .stack = false := by
  refine has_eq_false_iff.mpr ⟨?_, ?_⟩
  · cases op <;> simp_all [Op.pops, Op.pushes, ownEffects, Effects.has]
  · intro expr listed
    rw [expr.has_stack, ← Bool.not_eq_true]
    exact List.any_eq_false.mp free expr listed

namespace Promotion

variable {graph : Graph} {id : VertexId} {index : Nat} {stack : Stack}

/-- Every value on the stack was pushed on the way, and none of them is there twice. -/
structure Clean (graph : Graph) (id : VertexId) (index : Nat) (stack : Stack) : Prop where
  distinct : stack.Nodup
  passed : ∀ value ∈ stack, ∃ site, value = .pushed site ∧
    (graph.edges.Moves site.vertex id ∨ site.vertex = id ∧ site.index < index)

namespace Clean

theorem not_underflow (clean : Clean graph id index stack) {value : Value}
    (member : value ∈ stack) : value ≠ .underflow := by
  rcases clean.passed value member with ⟨site, rfl, -⟩
  simp

theorem next (clean : Clean graph id index stack) : Clean graph id (index + 1) stack where
  distinct := clean.distinct
  passed := by
    intro value member
    rcases clean.passed value member with ⟨site, named, before | ⟨here, bound⟩⟩
    · exact ⟨site, named, .inl before⟩
    · exact ⟨site, named, .inr ⟨here, by omega⟩⟩

theorem sublist {other : Stack} (clean : Clean graph id index stack)
    (within : other.Sublist stack) : Clean graph id index other where
  distinct := clean.distinct.sublist within
  passed := fun value member => clean.passed value (within.subset member)

theorem perm {other : Stack} (clean : Clean graph id index stack) (same : other.Perm stack) :
    Clean graph id index other where
  distinct := same.nodup_iff.mpr clean.distinct
  passed := fun value member => clean.passed value (same.subset member)

/-- A child of the vertex is reached from everything that was passed. -/
theorem child {next : VertexId} (clean : Clean graph id index stack)
    (edge : next ∈ graph.children id) : Clean graph next 0 stack where
  distinct := clean.distinct
  passed := by
    intro value member
    rcases clean.passed value member with ⟨site, named, before | ⟨rfl, -⟩⟩
    · exact ⟨site, named, .inl (before.trans (.step edge (.refl next)))⟩
    · exact ⟨site, named, .inl ⟨next, edge, .refl next⟩⟩

variable (loopless : ¬graph.edges.Moves id id)
include loopless

theorem push (clean : Clean graph id index stack) :
    Clean graph id (index + 1) (.pushed ⟨id, index⟩ :: stack) where
  distinct := by
    refine List.nodup_cons.mpr ⟨fun member => ?_, clean.distinct⟩
    rcases clean.passed _ member with ⟨site, named, before⟩
    obtain rfl := Value.pushed.inj named
    rcases before with loop | ⟨-, bound⟩
    · exact loopless loop
    · exact Nat.lt_irrefl index bound
  passed := by
    intro value member
    rcases List.mem_cons.mp member with rfl | old
    · exact ⟨⟨id, index⟩, rfl, .inr ⟨rfl, Nat.lt_succ_self index⟩⟩
    · exact clean.next.passed value old

/-- An op that finds its operands leaves a clean stack of the depth that is expected. -/
theorem ofOp {op : Op} (clean : Clean graph id index stack) (supplied : op.pops ≤ stack.length) :
    Clean graph id (index + 1) (ofOp ⟨id, index⟩ op stack).after ∧
      (Promotion.ofOp ⟨id, index⟩ op stack).after.length = op.depthAfter stack.length := by
  cases op with
  | swap =>
      rcases stack with _ | ⟨right, _ | ⟨left, rest⟩⟩
      · cases supplied
      · cases supplied
        contradiction
      · exact ⟨clean.next.perm (.swap right left rest), rfl⟩
  | dup =>
      rcases stack with _ | ⟨copied, rest⟩
      · cases supplied
      · exact ⟨clean.push loopless, rfl⟩
  | nop | pop | set | store x y value | varSet var | assign var value | output format
  | print value format | printText text | inputVar var format =>
      exact ⟨clean.next.sublist (List.drop_sublist _ _), List.length_drop⟩
  | push value | math operator | not | get | load x y | varGet var | input format =>
      exact ⟨(clean.sublist (List.drop_sublist _ _)).push loopless,
        congrArg (· + 1) List.length_drop⟩

end Clean

/-- The use meets nothing below the bottom and leaves no value twice on the stack. -/
structure Use.Safe (use : Use) : Prop where
  sees : ∀ value, use.Sees value → value ≠ .underflow
  distinct : use.after.Nodup

section Supplied

variable {site : Site} {value : Value}

theorem valueAt_mem {place : Nat} (bound : place < stack.length) : valueAt stack place ∈ stack := by
  rw [valueAt, List.getD_eq_getElem?_getD, List.getElem?_eq_getElem bound]
  exact List.getElem_mem bound

theorem mem_of_sees_ofOp {op : Op} (supplied : op.Supplied stack.length)
    (sees : (ofOp site op stack).Sees value) : value ∈ stack := by
  rcases sees with input | onTop
  · rw [inputs_ofOp] at input
    rcases mem_topmost.mp input with ⟨place, bound, rfl⟩
    exact valueAt_mem (bound.trans_le supplied.1)
  · rw [peeked_ofOp] at onTop
    split at onTop <;> cases onTop
    exact valueAt_mem (supplied.2 ‹_›)

theorem mem_of_sees_ofExit {exit : Exit} (supplied : exit.Supplied stack.length)
    (sees : (ofExit site exit stack).Sees value) : value ∈ stack := by
  have onTop : 0 < stack.length ∧ value = valueAt stack 0 := by
    rw [← top_eq_valueAt]
    cases exit with
    | next | random => simp [Use.Sees, ofExit] at sees
    | popped => exact ⟨supplied, by simpa [Use.Sees, ofExit] using sees⟩
    | tested test =>
        have seen : test.readsStack = true ∧ top stack = value := by
          simpa [Use.Sees, ofExit] using sees
        exact ⟨supplied seen.1, seen.2.symm⟩
  rw [onTop.2]
  exact valueAt_mem onTop.1

end Supplied

namespace Clean

variable (loopless : ¬graph.edges.Moves id id)
include loopless

theorem ofOps {ops : List Op} (clean : Clean graph id index stack)
    (supplied : Op.SuppliedAll ops stack.length) :
    (∀ use ∈ Promotion.ofOps id index ops stack, use.Safe) ∧
      Clean graph id (index + ops.length) (stackAfter stack (Promotion.ofOps id index ops stack)) ∧
      (stackAfter stack (Promotion.ofOps id index ops stack)).length =
        ops.foldl (fun current op => op.depthAfter current) stack.length := by
  induction ops generalizing index stack with
  | nil => exact ⟨by simp [Promotion.ofOps], clean, rfl⟩
  | cons op ops ih =>
      rcases supplied with ⟨suppliedOp, suppliedOps⟩
      rcases clean.ofOp loopless suppliedOp.1 with ⟨after, length⟩
      rw [← length] at suppliedOps
      rcases ih after suppliedOps with ⟨safe, final, finalLength⟩
      rw [Promotion.ofOps, stackAfter_cons, List.length_cons, List.foldl_cons, ← length,
        Nat.add_comm ops.length, ← Nat.add_assoc]
      refine ⟨?_, final, finalLength⟩
      intro use member
      rcases List.mem_cons.mp member with rfl | member
      · exact ⟨fun value sees => clean.not_underflow (mem_of_sees_ofOp suppliedOp sees),
          after.distinct⟩
      · exact safe use member

/-- Every use of a vertex that finds its operands is safe, and the vertex leaves a clean stack. -/
theorem ofKind {kind : Kind} (clean : Clean graph id 0 stack)
    (supplied : kind.Supplied stack.length) :
    (∀ use ∈ Promotion.ofKind id kind stack, use.Safe) ∧
      Clean graph id kind.ops.length (stackAfter stack (Promotion.ofKind id kind stack)) ∧
      (stackAfter stack (Promotion.ofKind id kind stack)).length =
        kind.depthAfter stack.length := by
  rcases clean.ofOps loopless supplied.1 with ⟨safe, after, length⟩
  rw [Nat.zero_add] at after
  have suppliedExit := supplied.2
  rw [Kind.depthAfterOps, ← length] at suppliedExit
  have left : Clean graph id kind.ops.length (ofExit ⟨id, kind.ops.length⟩ kind.exit
      (stackAfter stack (Promotion.ofOps id 0 kind.ops stack))).after :=
    after.sublist (List.drop_sublist _ _)
  rw [Promotion.ofKind, stackAfter_append_single]
  refine ⟨?_, left, ?_⟩
  · intro use member
    rcases List.mem_append.mp member with inOps | atExit
    · exact safe use inOps
    · obtain rfl := List.mem_singleton.mp atExit
      exact ⟨fun value sees => after.not_underflow (mem_of_sees_ofExit suppliedExit sees),
        left.distinct⟩
  · cases exit : kind.exit <;>
      simp [ofExit, Kind.depthAfter, Kind.depthAfterOps, Kind.popsTest, exit, length]

end Clean

namespace Arrival

variable {root : VertexId} {visit other : Visit} (tree : graph.IsTree)
include tree

/-- No path leads back to the root. -/
theorem vertex_ne_root {arrival : Visit} (arrives : Arrival graph root visit)
    (leads : arrival ∈ visit.arrivals graph) : arrival.vertex ≠ root := by
  rcases List.mem_map.mp leads with ⟨child, edge, rfl⟩
  rintro rfl
  exact tree.not_moves (arrives.reaches.moves ⟨child, edge, .refl child⟩)

/-- In a tree each vertex is reached by one path and so with one stack. -/
theorem unique (consistent : graph.Consistent) (arrives : Arrival graph root visit)
    (otherArrives : Arrival graph root other) (same : visit.vertex = other.vertex) :
    visit = other := by
  induction arrives generalizing other with
  | start =>
      cases otherArrives with
      | start => rfl
      | next before leads => exact absurd same.symm (before.vertex_ne_root tree leads)
  | next before leads ih =>
      cases otherArrives with
      | start => exact absurd same (before.vertex_ne_root tree leads)
      | next otherBefore otherLeads =>
          rcases List.mem_map.mp leads with ⟨child, edge, rfl⟩
          rcases List.mem_map.mp otherLeads with ⟨otherChild, otherEdge, rfl⟩
          obtain rfl : child = otherChild := same
          rw [ih otherBefore (tree.parent_unique consistent edge otherEdge)]

/-- A visit has as many values on its stack as there are on the path to it, and the stack is
clean. -/
theorem clean (start : graph.root = some root) (supplied : graph.Supplied)
    (arrives : Arrival graph root visit) :
    (∃ path, graph.Enters path visit.vertex visit.stack.length) ∧
      Clean graph visit.vertex 0 visit.stack := by
  induction arrives with
  | start => exact ⟨⟨[], .root start⟩, ⟨List.nodup_nil, by simp⟩⟩
  | @next visit arrival _ leads ih =>
      rcases ih with ⟨⟨path, enters⟩, clean⟩
      rcases List.mem_map.mp leads with ⟨child, edge, rfl⟩
      rcases Graph.contains_iff.mp (Graph.live_of_mem_children edge) with ⟨vertex, found⟩
      rcases clean.ofKind tree.not_moves (supplied enters found) with ⟨-, after, length⟩
      rw [← uses_eq found] at after length
      refine ⟨⟨path ++ [visit.vertex], ?_⟩, after.child edge⟩
      rw [length]
      exact .child enters found (Graph.children_eq found ▸ edge)

end Arrival

section Moved

variable {assignment : Assignment} {site : Site} {before : Stack}

/-- An op all of whose values have variables is changed to one that keeps off the stack. -/
theorem has_stack_of_op {op new : Op} (known : assignment.use? site = some (ofOp site op before))
    (changed : assignment.op site op = .ok new)
    (sees : ∀ value, (ofOp site op before).Sees value → (assignment.var? value).isSome = true)
    (produces : op.produces = true → (assignment.var? (.pushed site)).isSome = true) :
    new.effects.has .stack = false := by
  have operands : ∀ value ∈ topmost op.pops before, (assignment.var? value).isSome = true :=
    fun value member => sees value (.inl (inputs_ofOp op ▸ member))
  have sized := sized_of_op known changed
  apply Op.has_stack_eq_false
  · rw [sized.pops, staying_of_some operands]
  · rw [sized.pushes]
    apply staying_of_some
    intro value member
    rcases mem_outputs member with operand | ⟨rfl, own⟩
    · exact operands value operand
    · exact produces own
  · rw [← Bool.not_eq_true]
    intro reads
    rcases (Rewritten.of_op known changed).peeks reads with ⟨oldReads, stays⟩
    have onTop : (ofOp site op before).peeked = some (valueAt before 0) := by
      rw [peeked_ofOp, if_pos oldReads]
    rw [onTop, Option.bind_some] at stays
    have moves := sees _ (.inr onTop)
    simp [stays] at moves

theorem has_stack_of_exit {exit : Exit}
    (known : assignment.use? site = some (ofExit site exit before))
    (sees : ∀ value, (ofExit site exit before).Sees value → (assignment.var? value).isSome = true) :
    (assignment.exit site exit).effects.has .stack = false := by
  cases exit with
  | next | random => rfl
  | popped =>
      have moves := sees (top before) (.inl (by simp [ofExit]))
      rcases Option.isSome_iff_exists.mp moves with ⟨var, hasVar⟩
      have popped : assignment.popped? site = some var := by
        simp [Assignment.popped?, known, ofExit, hasVar]
      rw [Assignment.exit, popped]
      rfl
  | tested test =>
      simp only [Assignment.exit, Assignment.test, known, Exit.effects, Expr.has_stack]
      rw [← Bool.not_eq_true]
      intro reads
      rcases Assignment.readsStack_of_expr reads with ⟨oldReads, stays⟩
      have onTop : (ofExit site (.tested test) before).peeked = some (top before) := by
        simp [ofExit, oldReads]
      rw [onTop, Option.bind_some] at stays
      have moves := sees _ (.inr onTop)
      simp [stays] at moves

/-- An op that finds no value and pushes none keeps off the stack. -/
theorem has_stack_of_unseen {op : Op} (unseen : ∀ value, ¬(ofOp site op before).Sees value)
    (silent : ¬op.produces = true) : op.effects.has .stack = false := by
  have popsNothing : topmost op.pops before = [] := by
    rw [List.eq_nil_iff_forall_not_mem]
    exact fun value member => unseen value (.inl (inputs_ofOp op ▸ member))
  have pops : op.pops = 0 := by simpa using congrArg List.length popsNothing
  apply Op.has_stack_eq_false pops
  · have only : op.pushes = 0 ∨ op = .swap := by
      simpa [Op.produces, or_iff_not_imp_left] using silent
    rcases only with pushes | rfl
    · exact pushes
    · cases pops
  · rw [← Bool.not_eq_true]
    intro reads
    exact unseen (valueAt before 0) (.inr (by rw [peeked_ofOp, if_pos reads]))

theorem has_stack_of_unseen_exit {exit : Exit}
    (unseen : ∀ value, ¬(ofExit site exit before).Sees value) :
    exit.effects.has .stack = false := by
  cases exit with
  | next | random => rfl
  | popped => exact absurd (.inl (by simp [ofExit])) (unseen (top before))
  | tested test =>
      rw [Exit.effects, Expr.has_stack, ← Bool.not_eq_true]
      intro reads
      exact unseen (top before) (.inr (by simp [ofExit, reads]))

end Moved

theorem differences_self (values : List Value) : differences values values = [] := by
  induction values with
  | nil => rfl
  | cons value values ih => simpa [differences] using ih

namespace Facts

variable {facts : Facts}

/-- Each vertex is visited once, whatever arrives is visited, and all uses are safe. -/
structure Settled (facts : Facts) : Prop where
  unique : ∀ visit ∈ facts.visits, ∀ other ∈ facts.visits, visit.vertex = other.vertex →
    visit = other
  closed : ∀ visit ∈ facts.visits, ∀ arrival ∈ visit.arrivals facts.graph, arrival ∈ facts.visits
  safe : ∀ use ∈ facts.uses, use.Safe

theorem settled {root : VertexId} (consistent : facts.graph.Consistent) (tree : facts.graph.IsTree)
    (supplied : facts.graph.Supplied) (start : facts.graph.root = some root)
    (arrives : ∀ visit ∈ facts.visits, Arrival facts.graph root visit)
    (explored : Explored facts.graph facts.visits) : facts.Settled where
  unique := fun visit member other otherMember =>
    (arrives visit member).unique tree consistent (arrives other otherMember)
  closed := by
    intro visit member arrival leads
    rcases explored.arrives visit member arrival leads with ⟨other, otherMember, same⟩
    rwa [((arrives visit member).next leads).unique tree consistent (arrives other otherMember)
      same.symm]
  safe := by
    intro use inUses
    rcases mem_uses.mp inUses with ⟨visit, member, inVisit⟩
    rcases (arrives visit member).clean tree start supplied with ⟨⟨path, enters⟩, clean⟩
    rcases exists_vertex_of_mem_uses inVisit with ⟨vertex, found⟩
    rw [uses_eq found] at inVisit
    exact (clean.ofKind tree.not_moves (supplied enters found)).1 use inVisit

namespace Settled

variable (settled : facts.Settled)
include settled

theorem record_eq {visit : Visit} (member : visit ∈ facts.visits) :
    facts.record visit.vertex = visit.uses facts.graph := by
  rcases exists_first ⟨visit, member, rfl⟩ with ⟨first, isFirst⟩
  have same : first.vertex = visit.vertex := by simpa using List.find?_some isFirst
  obtain rfl := settled.unique first (List.mem_of_find?_eq_some isFirst) visit member same
  rw [Facts.record, isFirst]

theorem operandClashes_eq {visit : Visit} (member : visit ∈ facts.visits) :
    facts.operandClashes visit = [] := by
  rw [operandClashes, settled.record_eq member, List.flatMap_eq_nil_iff]
  rintro ⟨first, second⟩ zipped
  rcases List.getElem?_of_mem zipped with ⟨place, atPlace⟩
  rcases List.getElem?_zip_eq_some.mp atPlace with ⟨found, otherFound⟩
  obtain rfl : first = second := Option.some.inj (found.symm.trans otherFound)
  simp only [Use.clashes, differences_self, List.append_nil]

theorem arrivalClashes_eq {arrival : Visit} (member : arrival ∈ facts.visits) :
    facts.arrivalClashes arrival = [] := by
  have own : arrival ∈ visitsOf facts.visits arrival.vertex := List.mem_filter.mpr ⟨member, by simp⟩
  cases known : (visitsOf facts.visits arrival.vertex).find?
    (·.stack.length = arrival.stack.length) with
  | none => simpa using List.find?_eq_none.mp known arrival own
  | some visit =>
      rcases List.mem_filter.mp (List.mem_of_find?_eq_some known) with ⟨visited, same⟩
      obtain rfl := settled.unique visit visited arrival member (by simpa using same)
      simp only [arrivalClashes, known, differences_self]

/-- Nothing is tainted but what lies below the bottom. -/
theorem eq_underflow_of_seed {value : Value} (seed : value ∈ facts.seeds) : value = .underflow := by
  simp only [seeds, List.mem_cons, List.mem_append, List.mem_flatMap] at seed
  rcases seed with below | (⟨visit, member, clash⟩ | ⟨use, inUses, twice⟩) |
    ⟨arrival, ⟨visit, member, leads⟩, clash⟩
  · exact below
  · rw [settled.operandClashes_eq member] at clash
    cases clash
  · rcases List.mem_filter.mp twice with ⟨-, count⟩
    have once := List.nodup_iff_count_le_one.mp (settled.safe use inUses).distinct value
    exact absurd (of_decide_eq_true count) (Nat.not_lt.mpr once)
  · rw [settled.arrivalClashes_eq (settled.closed visit member arrival leads)] at clash
    cases clash

theorem eq_underflow_of_tainted {value : Value} (tainted : value ∈ facts.tainted) :
    value = .underflow := by
  rcases mem_tainted.mp tainted with ⟨seed, isSeed, path⟩
  obtain rfl := settled.eq_underflow_of_seed isSeed
  cases path with
  | refl _ => rfl
  | step edge _ =>
      -- No op binds what lies below the bottom to anything.
      rcases List.mem_flatten.mp edge with ⟨group, listed, -⟩
      rcases List.mem_filter.mp listed with ⟨inGroups, bound⟩
      rw [groups, List.mem_eraseDups] at inGroups
      rcases List.mem_map.mp inGroups with ⟨use, inUses, rfl⟩
      rcases mem_uses.mp inUses with ⟨visit, -, inVisit⟩
      rcases from_of_mem_uses inVisit with ⟨_, comes⟩
      rcases comes.bound .underflow (of_decide_eq_true bound) with input | pushes
      · exact absurd rfl ((settled.safe use inUses).sees _ (.inl input))
      · cases pushes.1

variable {use : Use} (inUses : use ∈ facts.uses) {value : Value}
include inUses

theorem promoted_of_pushes (pushes : use.Pushes value) : value ∈ facts.promoted := by
  rcases mem_uses.mp inUses with ⟨visit, member, inVisit⟩
  refine promoted_of_pushed (.inr ⟨visit, member, use, inVisit, pushes⟩) fun tainted => ?_
  rw [pushes.1] at tainted
  cases settled.eq_underflow_of_tainted tainted

theorem promoted_of_sees (explored : Explored facts.graph facts.visits) (sees : use.Sees value) :
    value ∈ facts.promoted := by
  rcases mem_uses.mp inUses with ⟨visit, member, inVisit⟩
  have pushed := (pushed_along member (explored.pushed visit member)).1 use inVisit value sees
  refine promoted_of_pushed pushed fun tainted => ?_
  exact (settled.safe use inUses).sees value sees (settled.eq_underflow_of_tainted tainted)

end Settled

section Vertices

variable {id : VertexId} {vertex : Vertex} (settled : facts.Settled)
  (explored : Explored facts.graph facts.visits) (found : facts.graph.vertex? id = some vertex)
  (visited : ∃ visit ∈ facts.visits, visit.vertex = id)
include settled explored found visited

/-- After the promotion the vertex keeps off the stack. -/
theorem has_stack_change : (facts.change id vertex.kind).effects.has .stack = false := by
  rcases exists_first visited with ⟨first, isFirst⟩
  have inUses := mem_uses_of_first found isFirst
  have moves : ∀ value ∈ facts.promoted, (facts.choice.var? value).isSome = true := by
    intro value promoted
    rw [Option.isSome_iff_ne_none]
    exact fun unassigned => var?_eq_none_iff.mp unassigned promoted
  refine Kind.has_eq_false_iff.mpr ⟨?_, ?_⟩
  · intro new listed
    rcases List.getElem?_of_mem listed with ⟨place, present⟩
    rcases exists_op found explored present with ⟨op, oldPresent, changed⟩
    have inUse := inUses _ (ofOp_mem_ofKind oldPresent first.stack)
    apply has_stack_of_op (use?_of_op found isFirst oldPresent) changed
    · exact fun value sees => moves value (settled.promoted_of_sees inUse explored sees)
    · exact fun own => moves _ (settled.promoted_of_pushes inUse (pushes_ofOp_iff.mpr ⟨rfl, own⟩))
  · rcases Assignment.exists_ops (change_spec_of_live explored found).1 with ⟨body, -, -, exit⟩
    have inUse := inUses _ (ofExit_mem_ofKind vertex.kind first.stack)
    rw [exit]
    apply has_stack_of_exit (use?_of_exit found isFirst)
    exact fun value sees => moves value (settled.promoted_of_sees inUse explored sees)

/-- If no value is promoted, there was none, and the vertex kept off the stack before. -/
theorem has_stack_of_unpromoted (unpromoted : facts.promoted = []) :
    vertex.kind.effects.has .stack = false := by
  rcases exists_first visited with ⟨first, isFirst⟩
  have inUses := mem_uses_of_first found isFirst
  have absent : ∀ value, value ∉ facts.promoted := by simp [unpromoted]
  refine Kind.has_eq_false_iff.mpr ⟨?_, ?_⟩
  · intro op listed
    rcases List.getElem?_of_mem listed with ⟨place, present⟩
    have inUse := inUses _ (ofOp_mem_ofKind present first.stack)
    apply has_stack_of_unseen
    · exact fun value sees => absent value (settled.promoted_of_sees inUse explored sees)
    · exact fun own => absent _ (settled.promoted_of_pushes inUse (pushes_ofOp_iff.mpr ⟨rfl, own⟩))
  · have inUse := inUses _ (ofExit_mem_ofKind vertex.kind first.stack)
    apply has_stack_of_unseen_exit
    exact fun value sees => absent value (settled.promoted_of_sees inUse explored sees)

end Vertices

end Facts

end Promotion

namespace Graph

open Promotion

variable {graph : Graph}

/-- Where nothing can clash all values leave the stack. After the pass a tree in which nothing is
popped or looked at that is not there keeps off the stack altogether. -/
theorem promoteValues_stackFree (valid : graph.validate = .ok ()) (tree : graph.IsTree)
    (supplied : graph.Supplied) (limit : Nat) :
    ∃ other count, graph.promoteValues limit = .ok (other, count) ∧
      other.effects.stack = false := by
  have isValid := validate_eq_ok_iff.mp valid
  rcases exists_promotion isValid limit with
    ⟨facts, root, ⟨rfl, -, -, arrives, explored, result⟩, start, visited⟩
  have settled := Facts.settled (valid_iff.mp isValid).1 tree supplied start arrives explored
  refine ⟨_, _, result, ?_⟩
  change Effects.has _ .stack = false
  split
  · rename_i unpromoted
    apply has_eq_false_iff.mpr
    intro id vertex found
    have live := contains_iff.mpr ⟨vertex, found⟩
    exact Facts.has_stack_of_unpromoted settled explored found (visited live) unpromoted
  · apply has_eq_false_iff.mpr
    intro id twin twinFound
    rcases (Facts.promotion_rekinded explored).exists_vertex twinFound with ⟨vertex, found, rfl⟩
    exact Facts.has_stack_change settled explored found (visited (contains_iff.mpr ⟨vertex, found⟩))

/-- Copies a number, decides on the copy, and shows the number in one of two ways. -/
def showingTree : Graph where
  slots := #[
    some { kind := .block [.push (.const 5), .dup], children := [⟨1⟩] },
    some { kind := .decision, children := [⟨2⟩, ⟨3⟩], parents := [⟨0⟩] },
    some { kind := .block [.push (.const 2), .swap, .math .sub, .output .number],
           parents := [⟨1⟩] },
    some { kind := .exprDecision .peek, children := [⟨4⟩, ⟨5⟩], parents := [⟨1⟩] },
    some { kind := .single (.print .peek .number), parents := [⟨3⟩] },
    some { kind := .single .pop, parents := [⟨3⟩] }]
  root := some ⟨0⟩
  grid := .blank 0 0
  vars := #[]

theorem promoteValues_stackFree_showingTree :
    showingTree.validate = .ok () ∧ showingTree.IsTree ∧ showingTree.Supplied ∧
      showingTree.effects.stack = true ∧
      ∃ other count, showingTree.promoteValues 1 = .ok (other, count) ∧
        other.effects.stack = false := by
  have valid : showingTree.validate = .ok () := by decide +kernel
  have tree : showingTree.IsTree := ⟨by decide +kernel, by decide +kernel⟩
  have supplied : showingTree.Supplied :=
    supplied_of_table [(⟨0⟩, 0), (⟨1⟩, 2), (⟨2⟩, 1), (⟨3⟩, 1), (⟨4⟩, 1), (⟨5⟩, 1)] (by decide)
      (by decide)
  exact ⟨valid, tree, supplied, by decide, promoteValues_stackFree valid tree supplied 1⟩

end Graph

end StackFlow
