import Mathlib
import StackFlow.Proofs.Depth.Clamping
import StackFlow.Machine

/-!
# Pops past the bottom are detected

Whether a vertex pops past the bottom is told from the depths before and after it alone.
Ops that follow such a pop may push and pop as much as they like. They cannot make up
for it: each pop that finds nothing leaves the depth greater than the `delta` says, no
op takes that excess away, and so the end shows whether there was one.

The other side is what the machine does. Every op and the exit must find what they pop
on the stack as the ops before them leave it.
-/

namespace StackFlow

theorem Op.length_stack_run (op : Op) (state : State) :
    (op.run state).stack.length = op.depthAfter state.stack.length := by
  cases op <;>
    simp only [Op.run, Op.depthAfter, Op.pops, Op.pushes, State.replace, State.store, State.assign,
      State.skipInput, List.length_append, List.length_reverse, List.length_drop, List.length_cons,
      List.length_nil] <;>
    omega

theorem Exit.length_stack_run (exit : Exit) (state : State) :
    (exit.run state).stack.length = state.stack.length - if exit = .popped then 1 else 0 := by
  cases exit <;> simp [Exit.run, State.replace]

/-- The depth that is computed for a run of ops is the depth of the machine's stack. -/
theorem State.length_stack_run (state : State) (ops : List Op) :
    (state.run ops).stack.length =
      ops.foldl (fun current op => op.depthAfter current) state.stack.length := by
  induction ops generalizing state with
  | nil => rfl
  | cons op ops ih =>
      rw [State.run, ih, op.length_stack_run]
      rfl

/-- Each op of the run finds as many values on the stack as it pops. -/
def State.Feeds (state : State) (ops : List Op) : Prop :=
  ∀ before op after, ops = before ++ op :: after → op.pops ≤ (state.run before).stack.length

theorem State.feeds_nil (state : State) : state.Feeds [] := by
  intro before op after split
  simp at split

theorem State.feeds_cons {state : State} {op : Op} {ops : List Op} :
    state.Feeds (op :: ops) ↔ op.pops ≤ state.stack.length ∧ (op.run state).Feeds ops := by
  constructor
  · intro feeds
    constructor
    · exact feeds [] op ops rfl
    · rintro before other after rfl
      exact feeds (op :: before) other after rfl
  · rintro ⟨first, others⟩ before other after split
    cases before with
    | nil =>
        rcases List.cons.inj split with ⟨rfl, -⟩
        exact first
    | cons head before =>
        rcases List.cons.inj split with ⟨rfl, splitOthers⟩
        exact others before other after splitOthers

theorem Op.depthAfter_eq_iff (op : Op) (depth : Nat) :
    (op.depthAfter depth : Int) = depth + op.delta ↔ op.pops ≤ depth := by
  simp only [delta, depthAfter]
  omega

namespace Kind

theorem foldl_depthAfter_eq_iff (ops : List Op) (state : State) :
    ((ops.foldl (fun current op => op.depthAfter current) state.stack.length : Nat) : Int) =
        state.stack.length + ops.foldl (fun total op => total + op.delta) 0 ↔ state.Feeds ops := by
  induction ops generalizing state with
  | nil => simpa using state.feeds_nil
  | cons op ops ih =>
      have first := op.depth_add_delta_le state.stack.length
      have others := depth_add_delta_le_foldl ops (op.depthAfter state.stack.length)
      rw [State.feeds_cons, ← op.depthAfter_eq_iff, ← ih, op.length_stack_run, List.foldl_cons,
        List.foldl_cons, foldl_add_delta]
      -- Neither the op nor those behind it leave too little, so what is left is exact only if it is
      -- so for both.
      omega

/-- Each op of the vertex finds as many values on the stack as it pops, and an exit that pops finds
one. -/
structure Fed (kind : Kind) (state : State) : Prop where
  ops : state.Feeds kind.ops
  exit : kind.popsTest = true → 1 ≤ (state.run kind.ops).stack.length

theorem length_stack_run (kind : Kind) (state : State) :
    (kind.run state).stack.length = kind.depthAfter state.stack.length := by
  have ops := state.length_stack_run kind.ops
  have exit := kind.exit.length_stack_run (state.run kind.ops)
  simpa [Kind.run, depthAfter, depthAfterOps, popsTest, ← ops] using exit

theorem depthAfter_eq_iff (kind : Kind) (state : State) :
    (kind.depthAfter state.stack.length : Int) = state.stack.length + kind.delta ↔
      kind.Fed state := by
  have ops := foldl_depthAfter_eq_iff kind.ops state
  have least := depth_add_delta_le_foldl kind.ops state.stack.length
  have depth := state.length_stack_run kind.ops
  constructor
  · intro exactly
    simp only [depthAfter, depthAfterOps, delta] at exactly
    constructor
    · apply ops.mp
      split_ifs at exactly <;> omega
    · intro pops
      simp only [pops, if_true] at exactly
      omega
  · rintro ⟨fed, exit⟩
    have exactly := ops.mpr fed
    simp only [depthAfter, depthAfterOps, delta]
    split_ifs with pops
    · have found := exit pops
      omega
    · omega

/-- A vertex leaves at least the depth that its `delta` says, and exactly that just when every op
and the exit find what they pop, on whatever stack of that depth. Entered at a greater depth it
leaves no less, and no more than what the depth is greater by. -/
theorem clamping_detected (kind : Kind) (depth : Nat) :
    (depth : Int) + kind.delta ≤ kind.depthAfter depth ∧
      (∀ state : State, state.stack.length = depth →
        (kind.run state).stack.length = kind.depthAfter depth ∧
          ((kind.depthAfter depth : Int) = depth + kind.delta ↔ kind.Fed state) ∧
          (Depth.clamps kind depth = true ↔ ¬kind.Fed state)) ∧
      ∀ deeper, depth ≤ deeper →
        kind.depthAfter depth ≤ kind.depthAfter deeper ∧
          kind.depthAfter deeper ≤ kind.depthAfter depth + (deeper - depth) := by
  refine ⟨kind.depth_add_delta_le_depthAfter depth, ?_, ?_⟩
  · rintro state rfl
    refine ⟨kind.length_stack_run state, kind.depthAfter_eq_iff state, ?_⟩
    rw [← kind.depthAfter_eq_iff state]
    simp [Depth.clamps]
  · intro deeper le
    refine ⟨kind.depthAfter_mono le, ?_⟩
    have bound := kind.depthAfter_add_le depth (deeper - depth)
    rwa [Nat.add_sub_cancel' le] at bound

/-- The first pop is masked: the values pushed after it are enough for all that is popped later. -/
def maskedPop : Kind :=
  .decisionBlock [.pop, .push (.const 1), .dup, .math .add]

theorem clamping_detected_maskedPop :
    maskedPop.depthAfter 0 = 0 ∧ maskedPop.delta = -1 ∧ Depth.clamps maskedPop 0 = true ∧
      ¬maskedPop.Fed ⟨[], fun _ => 0, .blank 0 0, fun _ => 0⟩ ∧
      maskedPop.depthAfter 3 ≤ maskedPop.depthAfter 0 + 3 := by
  have clamps : Depth.clamps maskedPop 0 = true := by decide
  rcases clamping_detected maskedPop 0 with ⟨-, detected, grows⟩
  refine ⟨by decide, by decide, clamps, ?_, (grows 3 (by decide)).2⟩
  exact (detected ⟨[], fun _ => 0, .blank 0 0, fun _ => 0⟩ rfl).2.2.mp clamps

end Kind

end StackFlow
