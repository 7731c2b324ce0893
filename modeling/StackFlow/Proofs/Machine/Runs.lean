import Mathlib
import StackFlow.Machine

/-!
# Runs of vertices

What a straight run of vertices does to the state, what it shows, what it sees
on top of the stack and by which edge it is left, together with the laws of
running ops and vertices one after the other. Which variables occur in an op or a
vertex is spelled out as well.
-/

namespace StackFlow

/-- The op looks at the top of the stack and leaves it there. A copy counts, as it pushes what it
sees. -/
def Op.peeks (op : Op) : Bool :=
  op.readsStack || op = .dup

namespace State

theorem run_append (state : State) (ops others : List Op) :
    state.run (ops ++ others) = (state.run ops).run others := by
  induction ops generalizing state with
  | nil => rfl
  | cons op ops ih => exact ih (op.run state)

theorem events_append (state : State) (ops others : List Op) :
    state.events (ops ++ others) = state.events ops ++ (state.run ops).events others := by
  induction ops generalizing state with
  | nil => rfl
  | cons op ops ih => simp [events, run, ih]

/-- The values that a run of ops sees on top of the stack, one for each op that looks. -/
def peekedBy : State → List Op → List Word
  | _, [] => []
  | state, op :: ops => (if op.peeks then [state.operand 0] else []) ++ (op.run state).peekedBy ops

theorem peekedBy_append (state : State) (ops others : List Op) :
    state.peekedBy (ops ++ others) = state.peekedBy ops ++ (state.run ops).peekedBy others := by
  induction ops generalizing state with
  | nil => rfl
  | cons op ops ih => simp [peekedBy, run, ih]

/-- The state after a run of vertices. -/
def through : State → List Kind → State
  | state, [] => state
  | state, kind :: kinds => (kind.run state).through kinds

/-- What can be seen of a run of vertices. -/
def shown : State → List Kind → List Event
  | _, [] => []
  | state, kind :: kinds => kind.events state ++ (kind.run state).shown kinds

/-- The values that a run of vertices sees on top of the stack, in its ops and in its tests. -/
def peeked : State → List Kind → List Word
  | _, [] => []
  | state, kind :: kinds =>
    state.peekedBy kind.ops
      ++ (if kind.test?.any Expr.readsStack then [(state.run kind.ops).operand 0] else [])
      ++ (kind.run state).peeked kinds

/-- The number of the edge by which the last of a run of vertices is left. -/
def edge : State → List Kind → Nat → Nat
  | _, [], _ => 0
  | state, [kind], drawn => kind.edge drawn state
  | state, kind :: next :: kinds, drawn => (kind.run state).edge (next :: kinds) drawn

@[simp]
theorem through_nil (state : State) : state.through [] = state := rfl

@[simp]
theorem through_cons (state : State) (kind : Kind) (kinds : List Kind) :
    state.through (kind :: kinds) = (kind.run state).through kinds := rfl

@[simp]
theorem shown_nil (state : State) : state.shown [] = [] := rfl

@[simp]
theorem shown_cons (state : State) (kind : Kind) (kinds : List Kind) :
    state.shown (kind :: kinds) = kind.events state ++ (kind.run state).shown kinds := rfl

@[simp]
theorem edge_single (state : State) (kind : Kind) (drawn : Nat) :
    state.edge [kind] drawn = kind.edge drawn state := rfl

@[simp]
theorem edge_cons_cons (state : State) (kind next : Kind) (kinds : List Kind) (drawn : Nat) :
    state.edge (kind :: next :: kinds) drawn = (kind.run state).edge (next :: kinds) drawn := rfl

theorem through_append (state : State) (kinds others : List Kind) :
    state.through (kinds ++ others) = (state.through kinds).through others := by
  induction kinds generalizing state with
  | nil => rfl
  | cons kind kinds ih => exact ih (kind.run state)

theorem shown_append (state : State) (kinds others : List Kind) :
    state.shown (kinds ++ others) = state.shown kinds ++ (state.through kinds).shown others := by
  induction kinds generalizing state with
  | nil => rfl
  | cons kind kinds ih => simp [ih]

theorem edge_append_single (state : State) (kinds : List Kind) (last : Kind) (drawn : Nat) :
    state.edge (kinds ++ [last]) drawn = last.edge drawn (state.through kinds) := by
  induction kinds generalizing state with
  | nil => rfl
  | cons kind kinds ih =>
      rw [through_cons, ← ih]
      cases kinds <;> rfl

end State

namespace Op

variable {op : Op} {var : VarId} {change : Expr → Expr}

theorem mem_vars :
    var ∈ op.vars ↔ var ∈ op.ownVariable ∨ ∃ expr ∈ op.expressions, var ∈ expr.vars := by
  simp [vars]

/-- An op with other expressions has the variables of those and its own. -/
theorem mem_vars_mapExpressions :
    var ∈ (op.mapExpressions change).vars ↔
      var ∈ op.ownVariable ∨ ∃ expr ∈ op.expressions, var ∈ (change expr).vars := by
  have expressions : (op.mapExpressions change).expressions = op.expressions.map change := by
    cases op <;> rfl
  have ownVariable : (op.mapExpressions change).ownVariable = op.ownVariable := by cases op <;> rfl
  rw [mem_vars, ownVariable, expressions]
  simp

end Op

namespace Kind

theorem isSplit_eq_false_iff {kind : Kind} : kind.isSplit = false ↔ kind.exit = .next := by
  unfold isSplit arity?
  cases kind.exit <;> simp [Exit.arity?]

theorem edge_of_next {kind : Kind} (straight : kind.exit = .next) (drawn : Nat) (state : State) :
    kind.edge drawn state = 0 := by
  simp [Kind.edge, Exit.edge, straight]

@[simp]
theorem run_single (op : Op) (state : State) : (single op).run state = op.run state := rfl

@[simp]
theorem events_single (op : Op) (state : State) : (single op).events state = op.events state := by
  simp [events, ops, State.events]

theorem test?_eq_some_iff {kind : Kind} {test : Expr} :
    kind.test? = some test ↔ kind.exit = .tested test := by
  unfold test?
  cases kind.exit <;> simp

theorem mem_vars {kind : Kind} {var : VarId} :
    var ∈ kind.vars ↔
      (∃ op ∈ kind.ops, var ∈ op.vars) ∨ ∃ test, kind.test? = some test ∧ var ∈ test.vars := by
  simp [vars]

@[simp]
theorem mem_vars_single {op : Op} {var : VarId} : var ∈ (single op).vars ↔ var ∈ op.vars := by
  simp [mem_vars, ops, test?, exit]

end Kind

end StackFlow
