import Mathlib
import StackFlow.Proofs.Behaviour.Simulation

/-!
# Stacks that differ below the bottom only

Popping the empty stack yields zero, so a zero at the bottom of the stack cannot
be told from nothing. Some rewrites drop such zeros or leave them behind: two
exchanges on a stack of one value put a zero below it. States are similar if they
are equal up to these zeros, and everything the machine does respects similarity.
-/

namespace StackFlow

namespace State

/-- The states are equal up to zeros at the bottom of the stack. -/
structure Similar (state twin : State) : Prop where
  operand : ∀ place, state.operand place = twin.operand place
  vars : state.vars = twin.vars
  grid : state.grid = twin.grid
  input : state.input = twin.input

theorem operand_replace (state : State) (pops : Nat) (pushes : List Word) (place : Nat) :
    (state.replace pops pushes).operand place =
      if place < pushes.length then pushes.reverse.getD place 0
      else state.operand (place - pushes.length + pops) := by
  unfold operand replace
  simp only [List.getD_eq_getElem?_getD]
  split_ifs with inside
  · rw [List.getElem?_append_left (by simpa using inside)]
  · rw [List.getElem?_append_right (by simpa using inside), List.getElem?_drop, List.length_reverse,
      Nat.add_comm pops]

namespace Similar

variable {state twin third : State}

@[refl]
theorem refl (state : State) : state.Similar state :=
  ⟨fun _ => rfl, rfl, rfl, rfl⟩

theorem of_eq (same : state = twin) : state.Similar twin :=
  same ▸ refl state

theorem symm (similar : state.Similar twin) : twin.Similar state :=
  ⟨fun place => (similar.operand place).symm, similar.vars.symm, similar.grid.symm,
    similar.input.symm⟩

theorem trans (first : state.Similar twin) (second : twin.Similar third) : state.Similar third :=
  ⟨fun place => (first.operand place).trans (second.operand place), first.vars.trans second.vars,
    first.grid.trans second.grid, first.input.trans second.input⟩

theorem env (similar : state.Similar twin) : state.env = twin.env := by
  simp [State.env, similar.operand, similar.vars, similar.grid]

theorem replace (similar : state.Similar twin) (pops : Nat) (pushes : List Word) :
    (state.replace pops pushes).Similar (twin.replace pops pushes) := by
  refine ⟨?_, similar.vars, similar.grid, similar.input⟩
  intro place
  simp only [operand_replace, similar.operand]

theorem assign (similar : state.Similar twin) (var : VarId) (value : Word) :
    (state.assign var value).Similar (twin.assign var value) := by
  refine ⟨similar.operand, ?_, similar.grid, similar.input⟩
  simp [State.assign, similar.vars]

theorem store (similar : state.Similar twin) (x y value : Word) :
    (state.store x y value).Similar (twin.store x y value) := by
  refine ⟨similar.operand, similar.vars, ?_, similar.input⟩
  simp [State.store, similar.grid]

theorem skipInput (similar : state.Similar twin) : state.skipInput.Similar twin.skipInput := by
  refine ⟨similar.operand, similar.vars, similar.grid, ?_⟩
  simp [State.skipInput, similar.input]

theorem runOp (similar : state.Similar twin) (op : Op) : (op.run state).Similar (op.run twin) := by
  cases op <;>
    simp only [Op.run, similar.operand, similar.env, similar.vars, similar.grid, similar.input]
  case nop | print | printText => exact similar
  case set => exact (similar.store _ _ _).replace _ _
  case store => exact similar.store _ _ _
  case varSet => exact (similar.assign _ _).replace _ _
  case assign => exact similar.assign _ _
  case input => exact similar.skipInput.replace _ _
  case inputVar => exact similar.skipInput.assign _ _
  all_goals exact similar.replace _ _

theorem eventsOp (similar : state.Similar twin) (op : Op) : op.events state = op.events twin := by
  cases op <;> simp [Op.events, similar.operand, similar.env, similar.input]

theorem runOps (similar : state.Similar twin) (ops : List Op) :
    (state.run ops).Similar (twin.run ops) := by
  induction ops generalizing state twin with
  | nil => exact similar
  | cons op ops ih => exact ih (similar.runOp op)

theorem eventsOps (similar : state.Similar twin) (ops : List Op) :
    state.events ops = twin.events ops := by
  induction ops generalizing state twin with
  | nil => rfl
  | cons op ops ih => simp only [State.events, similar.eventsOp op, ih (similar.runOp op)]

theorem runKind (similar : state.Similar twin) (kind : Kind) :
    (kind.run state).Similar (kind.run twin) := by
  have ran := similar.runOps kind.ops
  unfold Kind.run Exit.run
  cases kind.exit with
  | popped => exact ran.replace 1 []
  | next | tested | random => exact ran

theorem eventsKind (similar : state.Similar twin) (kind : Kind) :
    kind.events state = kind.events twin :=
  similar.eventsOps kind.ops

theorem edgeKind (similar : state.Similar twin) (kind : Kind) (drawn : Nat) :
    kind.edge drawn state = kind.edge drawn twin := by
  have ran := similar.runOps kind.ops
  simp only [Kind.edge, Exit.edge, ran.operand, ran.env]

theorem through (similar : state.Similar twin) (kinds : List Kind) :
    (state.through kinds).Similar (twin.through kinds) := by
  induction kinds generalizing state twin with
  | nil => exact similar
  | cons kind kinds ih => exact ih (similar.runKind kind)

theorem shown (similar : state.Similar twin) (kinds : List Kind) :
    state.shown kinds = twin.shown kinds := by
  induction kinds generalizing state twin with
  | nil => rfl
  | cons kind kinds ih =>
      simp only [State.shown_cons, similar.eventsKind kind, ih (similar.runKind kind)]

theorem edge (similar : state.Similar twin) (kinds : List Kind) (drawn : Nat) :
    state.edge kinds drawn = twin.edge kinds drawn := by
  fun_induction State.edge state kinds drawn generalizing twin with
  | case1 => rfl
  | case2 state kind drawn => exact similar.edgeKind kind drawn
  | case3 state kind next kinds drawn ih => exact ih (similar.runKind kind)

end Similar

end State

end StackFlow
