import Mathlib
import StackFlow.Proofs.Expr.Meaning
import StackFlow.Proofs.Rule.Soundness

/-!
# The rules of the optimizer are sound

Every rule of the catalogue builds something for each chain that it accepts, and what
it builds can stand in the place of the chain.

Most rules turn a push and its consumer into one op. The one condition they depend
on is that a value which does not read the stack is the same before and after
other values are pushed. So of the values that are moved into one op only the first
may read the stack, and it sees the top that it saw before.
-/

namespace StackFlow

@[simp]
theorem Op.peeks_push (value : Expr) : (Op.push value).peeks = value.readsStack := by
  simp [peeks, readsStack, expressions]

namespace State

/-- A value that does not read the stack is the same after a push. -/
theorem eval_push {expr : Expr} (free : expr.readsStack = false) (state : State) (pops : Nat)
    (pushes : List Word) : expr.eval (state.replace pops pushes).env = expr.eval state.env :=
  Expr.eval_congr (fun _ _ => rfl) rfl (by simp [free])

end State

/-- A single op sees nothing new if it looks at the stack only where the first op of the run
does. -/
theorem supplants_of_op (op first : Op) (ops : List Op)
    (events : ∀ state : State, state.events [op] = state.events (first :: ops))
    (run : ∀ state : State, (state.run [op]).Similar (state.run (first :: ops)))
    (vars : [op].flatMap Op.vars ⊆ (first :: ops).flatMap Op.vars)
    (looks : op.peeks = true → first.peeks = true)
    (cheaper : Cheaper [.single op] ((first :: ops).map .single)) :
    Supplants [.single op] ((first :: ops).map .single) := by
  refine supplants_of_ops [op] (first :: ops) events run vars ?_ cheaper
  intro state
  simp only [State.peekedBy, List.append_nil]
  apply List.Sublist.trans _ (List.sublist_append_left _ _)
  split
  · rename_i peeks
    rw [if_pos (looks peeks)]
  · exact List.nil_sublist _

section Costs

theorem cheaper_combine (op : Operator) (lhs rhs : Expr) :
    Cheaper [.single (.push (.combine op lhs rhs))]
      [.single (.push lhs), .single (.push rhs), .single (.math op)] := by
  apply cheaper_of_op _ (.push lhs) [.push rhs, .math op]
  · simp [Op.depthAfter, Op.pops, Op.pushes]
  · have light := Op.weight_push_le (.combine op lhs rhs)
    have first := (Op.push lhs).weight_pos
    have second := (Op.push rhs).weight_pos
    have third := (Op.math op).weight_pos
    simp only [List.map_cons, List.map_nil, totalWeight_cons, totalWeight_nil, Kind.weight_single]
    omega
  · intro _ access
    simpa [Op.memoryAccesses, Op.ownMemoryAccess, Op.expressions]
      using Expr.mem_memoryReads_of_mem_combine

theorem cheaper_negation (value : Expr) :
    Cheaper [.single (.push value.negation)] [.single (.push value), .single .not] := by
  apply cheaper_of_op _ (.push value) [.not]
  · simp [Op.depthAfter, Op.pops, Op.pushes]
  · have light := Op.weight_push_le value.negation
    have first := (Op.push value).weight_pos
    have second : Op.not.weight = 2 := rfl
    simp only [List.map_cons, List.map_nil, totalWeight_cons, totalWeight_nil, Kind.weight_single]
    omega
  · intro _
    simpa [Op.memoryAccesses, Op.ownMemoryAccess, Op.expressions]
      using value.memoryReads_negation_subset

/-- The copy of the top that is pushed may see the stack empty, where the other copy fills in a
zero. -/
theorem cheaper_peek : Cheaper [.single (.push .peek)] [.single .dup] := by
  apply cheaper_of_op _ .dup []
  · intro depth
    simp [Op.depthAfter, Op.pops, Op.pushes]
    omega
  · decide
  · simp [Op.memoryAccesses, Op.ownMemoryAccess, Op.expressions, Expr.memoryReads]

theorem cheaper_varGet (var : VarId) :
    Cheaper [.single (.push (.var var))] [.single (.varGet var)] := by
  apply cheaper_of_op _ (.varGet var) []
  · simp [Op.depthAfter, Op.pops, Op.pushes]
  · exact one_lt_two
  · simp [Op.memoryAccesses, Op.ownMemoryAccess, Op.expressions, Expr.memoryReads]

/-- An op that takes over what a push and its consumer do weighs as little as an op can. -/
theorem cheaper_of_consumer (op value consumer : Op) (ops : List Op) (light : op.weight = 1)
    (depth : ∀ depth,
      op.depthAfter depth ≤ depthThrough ((value :: consumer :: ops).map .single) depth)
    (accesses : (∀ access ∈ (value :: consumer :: ops).flatMap Op.memoryAccesses,
      access.isConstant = true) →
      op.memoryAccesses ⊆ (value :: consumer :: ops).flatMap Op.memoryAccesses) :
    Cheaper [.single op] ((value :: consumer :: ops).map .single) :=
  cheaper_of_op op value (consumer :: ops) depth (light.trans_lt (one_lt_totalWeight _ _ _))
    accesses

theorem cheaper_twice {value : Expr} {copy : Op} (free : value.readsStack = false)
    (copies : copy = .push .peek ∨ copy = .dup) :
    Cheaper [.single (.push value), .single (.push value)]
      [.single (.push value), .single copy] := by
  have light := Op.weight_push_of_free free
  refine ⟨?_, ?_, ?_, .inr (one_lt_totalWeight _ _ _), ?_⟩
  · intro depth
    rcases copies with rfl | rfl <;> simp [Op.depthAfter, Op.pops, Op.pushes]
  · intro depth
    rcases copies with rfl | rfl <;> simp [peakThrough, Op.depthAfter, Op.pops, Op.pushes]
  · rcases copies with rfl | rfl <;> simp [light] <;> decide
  · simp [Op.memoryAccesses, Op.ownMemoryAccess]

theorem cheaper_exchange {value other : Expr} (free : value.readsStack = false)
    (otherFree : other.readsStack = false) :
    Cheaper [.single (.push other), .single (.push value)]
      [.single (.push value), .single (.push other), .single .swap] := by
  have light := Op.weight_push_of_free free
  have otherLight := Op.weight_push_of_free otherFree
  refine ⟨?_, ?_, ?_, .inr (one_lt_totalWeight _ _ _), ?_⟩
  · intro depth
    simp [Op.depthAfter, Op.pops, Op.pushes]
  · intro depth
    simp [peakThrough, Op.depthAfter, Op.pops, Op.pushes]
  · simp [light, otherLight]
    decide
  · intro _ access
    simp only [List.flatMap_cons, List.flatMap_nil, List.mem_append]
    tauto

theorem cheaper_exprDecision (value : Expr) :
    Cheaper [.exprDecision value] [.single (.push value), .decision] := by
  refine ⟨?_, ?_, ?_, .inr (one_lt_totalWeight _ _ _), ?_⟩
  · intro depth
    simp [Kind.depthAfter, Kind.depthAfterOps, Kind.ops, Kind.popsTest, Kind.exit, Op.depthAfter,
      Op.pops, Op.pushes]
  · intro depth
    simp [peakThrough, Kind.peak, Kind.peakOf, Kind.ops]
  · have positive := (Op.push value).weight_pos
    simpa [Kind.weight] using positive
  · simp [Kind.memoryAccesses, Kind.ops, Kind.test?, Kind.exit, Op.memoryAccesses,
      Op.ownMemoryAccess, Op.expressions]

end Costs

namespace Rule

theorem single_iff {property : Op → Bool} {vertex : Vertex} :
    single property vertex = true ↔ ∃ op, vertex.kind = .single op ∧ property op = true := by
  unfold single Kind.op?
  cases vertex.kind <;> simp

theorem exactly_iff {op : Op} {vertex : Vertex} :
    exactly op vertex = true ↔ vertex.kind = .single op := by
  simp [exactly, single_iff]

theorem isPush_iff {op : Op} : op.isPush = true ↔ ∃ value, op = .push value := by
  cases op <;> simp [Op.isPush]

theorem isFreePush_iff {op : Op} :
    op.isFreePush = true ↔ ∃ value, op = .push value ∧ value.readsStack = false := by
  cases op <;> simp [Op.isFreePush]

theorem isCopy_iff {op : Op} : op.isCopy = true ↔ op = .push .peek ∨ op = .dup := by
  cases op with
  | push value => cases value <;> simp [Op.isCopy]
  | _ => simp [Op.isCopy]

theorem reliable_removeNop : removeNop.Reliable := by
  apply reliable_of_drop rfl
  intro links accepted
  simp only [removeNop, List.forall₂_cons_left_iff, List.forall₂_nil_left_iff,
    exactly_iff] at accepted
  rcases accepted with ⟨link, _, nop, rfl, rfl⟩
  simp only [List.map_cons, List.map_nil, nop]
  refine supplants_of_ops [] [.nop] (fun _ => rfl) (fun state => .refl state) (by simp)
    (fun _ => List.nil_sublist _) ?_
  exact cheaper_of_drop [.nop] (by simp [Op.depthAfter, Op.pops, Op.pushes]) (.inl rfl)

theorem reliable_pushPop : pushPop.Reliable := by
  apply reliable_of_drop rfl
  intro links accepted
  simp only [pushPop, List.forall₂_cons_left_iff, List.forall₂_nil_left_iff, single_iff,
    exactly_iff, isPush_iff] at accepted
  rcases accepted with ⟨first, _, ⟨_, push, value, rfl⟩, ⟨second, _, pop, rfl, rfl⟩, rfl⟩
  simp only [List.map_cons, List.map_nil, push, pop]
  refine supplants_of_ops [] [.push value, .pop] (fun _ => rfl) (fun state => .refl state) (by simp)
    (fun _ => List.nil_sublist _)
    (cheaper_of_drop [.push value, .pop] ?_ (.inr (one_lt_totalWeight _ _ _)))
  simp [Op.depthAfter, Op.pops, Op.pushes]

theorem reliable_dupPop : dupPop.Reliable := by
  apply reliable_of_drop rfl
  intro links accepted
  simp only [dupPop, List.forall₂_cons_left_iff, List.forall₂_nil_left_iff, exactly_iff] at accepted
  rcases accepted with ⟨first, _, dup, ⟨second, _, pop, rfl, rfl⟩, rfl⟩
  simp only [List.map_cons, List.map_nil, dup, pop]
  refine supplants_of_ops [] [.dup, .pop] (fun _ => rfl) ?_ (by simp) (fun _ => List.nil_sublist _)
    (cheaper_of_drop [.dup, .pop] ?_ (.inr (by decide)))
  · intro state
    refine ⟨fun place => ?_, rfl, rfl, rfl⟩
    cases place <;> simp [State.run, Op.run, State.operand_replace]
  · intro depth
    simp [Op.depthAfter, Op.pops, Op.pushes]
    omega

theorem reliable_swapSwap : swapSwap.Reliable := by
  apply reliable_of_drop rfl
  intro links accepted
  simp only [swapSwap, List.forall₂_cons_left_iff, List.forall₂_nil_left_iff,
    exactly_iff] at accepted
  rcases accepted with ⟨first, _, swap, ⟨second, _, swapAgain, rfl, rfl⟩, rfl⟩
  simp only [List.map_cons, List.map_nil, swap, swapAgain]
  refine supplants_of_ops [] [.swap, .swap] (fun _ => rfl) ?_ (by simp)
    (fun _ => List.nil_sublist _) (cheaper_of_drop [.swap, .swap] ?_ (.inr (by decide)))
  · intro state
    refine ⟨fun place => ?_, rfl, rfl, rfl⟩
    rcases place with _ | _ | place <;> simp [State.run, Op.run, State.operand_replace]
  · intro depth
    simp [Op.depthAfter, Op.pops, Op.pushes]
    omega

theorem reliable_foldMath : foldMath.Reliable := by
  apply reliable_of_fuse rfl
  intro links accepted
  simp only [foldMath, List.forall₂_cons_left_iff, List.forall₂_nil_left_iff, single_iff,
    isPush_iff, isFreePush_iff] at accepted
  rcases accepted with
    ⟨first, _, ⟨_, push, lhs, rfl⟩,
      ⟨second, _, ⟨_, pushAgain, rhs, rfl, free⟩, ⟨third, _, ⟨op, isMath, math⟩, rfl, rfl⟩, rfl⟩,
      rfl⟩
  cases op <;> simp only [Bool.false_eq_true] at math
  rename_i op
  simp only [List.map_cons, List.map_nil, push, pushAgain, isMath]
  refine ⟨_, rfl, supplants_of_op (.push (.combine op lhs rhs)) (.push lhs) [.push rhs, .math op]
    (fun _ => rfl) ?_ ?_ ?_ (cheaper_combine op lhs rhs)⟩
  · intro state
    apply State.Similar.of_eq
    simp only [State.run, Op.run, State.eval_push free, Expr.eval_combine]
    rfl
  · intro var
    simpa [Op.vars, Op.ownVariable, Op.expressions] using Expr.mem_vars_of_mem_combine
  · intro looks
    rw [Op.peeks_push] at looks ⊢
    exact (Expr.readsStack_of_combine looks).resolve_right (by simp [free])

theorem reliable_foldNot : foldNot.Reliable := by
  apply reliable_of_fuse rfl
  intro links accepted
  simp only [foldNot, List.forall₂_cons_left_iff, List.forall₂_nil_left_iff, single_iff,
    exactly_iff, isPush_iff] at accepted
  rcases accepted with ⟨first, _, ⟨_, push, value, rfl⟩, ⟨second, _, not, rfl, rfl⟩, rfl⟩
  simp only [List.map_cons, List.map_nil, push, not]
  refine ⟨_, rfl, supplants_of_op (.push value.negation) (.push value) [.not]
    (fun _ => rfl) ?_ ?_ ?_ (cheaper_negation value)⟩
  · intro state
    apply State.Similar.of_eq
    simp only [State.run, Op.run, Expr.eval_negation]
    rfl
  · simpa [Op.vars, Op.ownVariable, Op.expressions] using value.vars_negation_subset
  · simpa using Expr.readsStack_of_negation

theorem reliable_dupToPeek : dupToPeek.Reliable := by
  apply reliable_of_fuse rfl
  intro links accepted
  simp only [dupToPeek, List.forall₂_cons_left_iff, List.forall₂_nil_left_iff,
    exactly_iff] at accepted
  rcases accepted with ⟨link, _, dup, rfl, rfl⟩
  simp only [List.map_cons, List.map_nil, dup]
  refine ⟨_, rfl, supplants_of_op (.push .peek) .dup [] (fun _ => rfl) ?_
    (by simp [Op.vars, Op.ownVariable, Op.expressions, Expr.vars])
    (by simp [Op.peeks]) cheaper_peek⟩
  intro state
  refine ⟨fun place => ?_, rfl, rfl, rfl⟩
  rcases place with _ | _ | place <;>
    simp [State.run, Op.run, State.operand_replace, Expr.eval, State.env]

theorem reliable_duplicatePush : duplicatePush.Reliable := by
  intro chain accepted
  simp only [Accepts, duplicatePush, List.forall₂_cons_left_iff, List.forall₂_nil_left_iff,
    single_iff, isFreePush_iff, isCopy_iff] at accepted
  rcases accepted with
    ⟨first, _, ⟨_, push, value, rfl, free⟩, ⟨second, _, ⟨op, single, copies⟩, rfl, rfl⟩, links⟩
  have built : ∃ nodes, duplicatePush.build? chain = some nodes ∧
      nodes.map Node.kind = [.single (.push value), .single (.push value)] := by
    simp [build?, duplicatePush, Chain.nodes, links, pushedBy?, push]
  rcases built with ⟨nodes, built, kinds⟩
  refine ⟨nodes, built, ?_⟩
  simp only [kinds, chain.map_kind_nodes, links, List.map_cons, List.map_nil, push, single]
  refine supplants_of_ops [.push value, .push value] [.push value, op] ?_ ?_ ?_ ?_
    (cheaper_twice free copies)
  · rcases copies with rfl | rfl <;> exact fun _ => rfl
  · intro state
    apply State.Similar.of_eq
    have again := State.eval_push free state 0 [value.eval state.env]
    rcases copies with rfl | rfl <;> simp only [State.run, Op.run, again] <;> rfl
  · simp [Op.vars, Op.ownVariable, Op.expressions]
  · intro state
    simp [State.peekedBy, free]

theorem reliable_swapPushes : swapPushes.Reliable := by
  intro chain accepted
  simp only [Accepts, swapPushes, List.forall₂_cons_left_iff, List.forall₂_nil_left_iff, single_iff,
    exactly_iff, isFreePush_iff] at accepted
  rcases accepted with ⟨first, _, ⟨_, push, value, rfl, free⟩,
    ⟨second, _, ⟨_, pushAgain, other, rfl, otherFree⟩, ⟨third, _, swap, rfl, rfl⟩, rfl⟩, links⟩
  have built : ∃ nodes, swapPushes.build? chain = some nodes ∧
      nodes.map Node.kind = [.single (.push other), .single (.push value)] := by
    simp [build?, swapPushes, Chain.nodes, links, push, pushAgain]
  rcases built with ⟨nodes, built, kinds⟩
  refine ⟨nodes, built, ?_⟩
  simp only [kinds, chain.map_kind_nodes, links, List.map_cons, List.map_nil, push, pushAgain, swap]
  refine supplants_of_ops [.push other, .push value] [.push value, .push other, .swap]
    (fun _ => rfl) ?_ ?_ ?_ (cheaper_exchange free otherFree)
  · intro state
    apply State.Similar.of_eq
    simp only [State.run, Op.run, State.eval_push free, State.eval_push otherFree]
    rfl
  · simp [Op.vars, Op.ownVariable, Op.expressions]
  · intro state
    simp [State.peekedBy, free, otherFree]

theorem reliable_foldGet : foldGet.Reliable := by
  apply reliable_of_fuse rfl
  intro links accepted
  simp only [foldGet, List.forall₂_cons_left_iff, List.forall₂_nil_left_iff, single_iff,
    exactly_iff, isPush_iff, isFreePush_iff] at accepted
  rcases accepted with ⟨first, _, ⟨_, push, x, rfl⟩,
    ⟨second, _, ⟨_, pushAgain, y, rfl, free⟩, ⟨third, _, get, rfl, rfl⟩, rfl⟩, rfl⟩
  simp only [List.map_cons, List.map_nil, push, pushAgain, get]
  refine ⟨_, rfl, supplants_of_op (.push (.memory x y)) (.push x) [.push y, .get]
    (fun _ => rfl) ?_ ?_ ?_ (cheaper_of_consumer _ (.push x) (.push y) [.get] rfl ?_ ?_)⟩
  · intro state
    apply State.Similar.of_eq
    simp only [State.run, Op.run, State.eval_push free, Expr.eval]
    rfl
  · simp [Op.vars, Op.ownVariable, Op.expressions, Expr.vars]
  · rw [Expr.readsStack] at free
    simp [Expr.readsStack, Expr.any, Expr.isPeek, free]
  · simp [Op.depthAfter, Op.pops, Op.pushes]
  · intro constant
    have known := constant .stack (by simp [Op.memoryAccesses, Op.ownMemoryAccess])
    cases known

theorem reliable_foldSet : foldSet.Reliable := by
  apply reliable_of_fuse rfl
  intro links accepted
  simp only [foldSet, List.forall₂_cons_left_iff, List.forall₂_nil_left_iff, single_iff,
    exactly_iff, isPush_iff, isFreePush_iff] at accepted
  rcases accepted with ⟨first, _, ⟨_, pushValue, value, rfl⟩, ⟨second, _, ⟨_, pushX, x, rfl, xFree⟩,
    ⟨third, _, ⟨_, pushY, y, rfl, yFree⟩, ⟨fourth, _, set, rfl, rfl⟩, rfl⟩, rfl⟩, rfl⟩
  simp only [List.map_cons, List.map_nil, pushValue, pushX, pushY, set]
  refine ⟨_, rfl, supplants_of_op (.store x y value) (.push value) [.push x, .push y, .set]
    (fun _ => rfl) ?_ ?_ ?_
    (cheaper_of_consumer _ (.push value) (.push x) [.push y, .set] rfl ?_ ?_)⟩
  · intro state
    apply State.Similar.of_eq
    simp only [State.run, Op.run, State.eval_push xFree, State.eval_push yFree]
    rfl
  · intro var
    simp [Op.vars, Op.ownVariable, Op.expressions]
    tauto
  · simp [Op.peeks, Op.readsStack, Op.expressions, xFree, yFree]
  · simp [Op.depthAfter, Op.pops, Op.pushes]
  · intro constant
    have known := constant .stack (by simp [Op.memoryAccesses, Op.ownMemoryAccess])
    cases known

theorem reliable_foldOutput : foldOutput.Reliable := by
  apply reliable_of_fuse rfl
  intro links accepted
  simp only [foldOutput, List.forall₂_cons_left_iff, List.forall₂_nil_left_iff, single_iff,
    isPush_iff] at accepted
  rcases accepted with
    ⟨first, _, ⟨_, push, value, rfl⟩, ⟨second, _, ⟨op, single, isOutput⟩, rfl, rfl⟩, rfl⟩
  cases op <;> simp only [Bool.false_eq_true] at isOutput
  rename_i format
  simp only [List.map_cons, List.map_nil, push, single]
  refine ⟨_, rfl, supplants_of_op (.print value format) (.push value) [.output format]
    (fun _ => rfl) (fun state => .refl state) ?_ ?_
    (cheaper_of_consumer _ (.push value) (.output format) [] rfl ?_ ?_)⟩
  · simp [Op.vars, Op.ownVariable, Op.expressions]
  · simp [Op.peeks, Op.readsStack, Op.expressions]
  · simp [Op.depthAfter, Op.pops, Op.pushes]
  · simp [Op.memoryAccesses, Op.ownMemoryAccess, Op.expressions]

theorem reliable_varGetToPush : varGetToPush.Reliable := by
  apply reliable_of_fuse rfl
  intro links accepted
  simp only [varGetToPush, List.forall₂_cons_left_iff, List.forall₂_nil_left_iff,
    single_iff] at accepted
  rcases accepted with ⟨first, _, ⟨op, single, isVarGet⟩, rfl, rfl⟩
  cases op <;> simp only [Bool.false_eq_true] at isVarGet
  rename_i var
  simp only [List.map_cons, List.map_nil, single]
  refine ⟨_, rfl, supplants_of_op (.push (.var var)) (.varGet var) [] (fun _ => rfl)
    (fun state => .refl _) ?_ ?_ (cheaper_varGet var)⟩
  · simp [Op.vars, Op.ownVariable, Op.expressions, Expr.vars]
  · simp [Expr.readsStack, Expr.any, Expr.isPeek]

theorem reliable_foldVarSet : foldVarSet.Reliable := by
  apply reliable_of_fuse rfl
  intro links accepted
  simp only [foldVarSet, List.forall₂_cons_left_iff, List.forall₂_nil_left_iff, single_iff,
    isPush_iff] at accepted
  rcases accepted with
    ⟨first, _, ⟨_, push, value, rfl⟩, ⟨second, _, ⟨op, single, isVarSet⟩, rfl, rfl⟩, rfl⟩
  cases op <;> simp only [Bool.false_eq_true] at isVarSet
  rename_i var
  simp only [List.map_cons, List.map_nil, push, single]
  refine ⟨_, rfl, supplants_of_op (.assign var value) (.push value) [.varSet var] (fun _ => rfl)
    (fun state => .refl _) ?_ ?_ (cheaper_of_consumer _ (.push value) (.varSet var) [] rfl ?_ ?_)⟩
  · simp [Op.vars, Op.ownVariable, Op.expressions]
  · simp [Op.peeks, Op.readsStack, Op.expressions]
  · simp [Op.depthAfter, Op.pops, Op.pushes]
  · simp [Op.memoryAccesses, Op.ownMemoryAccess, Op.expressions]

theorem reliable_foldInputVarSet : foldInputVarSet.Reliable := by
  apply reliable_of_fuse rfl
  intro links accepted
  simp only [foldInputVarSet, List.forall₂_cons_left_iff, List.forall₂_nil_left_iff,
    single_iff] at accepted
  rcases accepted with
    ⟨first, _, ⟨input, single, isInput⟩, ⟨second, _, ⟨op, singleAgain, isVarSet⟩, rfl, rfl⟩, rfl⟩
  cases input <;> simp only [Bool.false_eq_true] at isInput
  cases op <;> simp only [Bool.false_eq_true] at isVarSet
  rename_i format var
  simp only [List.map_cons, List.map_nil, single, singleAgain]
  refine ⟨_, rfl, supplants_of_op (.inputVar var format) (.input format) [.varSet var]
    (fun _ => rfl) (fun state => .refl _) ?_ ?_
    (cheaper_of_consumer _ (.input format) (.varSet var) [] rfl ?_ ?_)⟩
  · simp [Op.vars, Op.ownVariable, Op.expressions]
  · simp [Op.peeks, Op.readsStack, Op.expressions]
  · simp [Op.depthAfter, Op.pops, Op.pushes]
  · simp [Op.memoryAccesses, Op.ownMemoryAccess, Op.expressions]

theorem ofNat_of_char? {word : Word} {char : Char} (found : word.char? = some char) :
    Int64.ofNat char.toNat = word := by
  unfold Word.char? at found
  split_ifs at found with valid
  cases found
  rw [Char.toNat_ofNat, if_pos valid.2, Int64.ofNat_toNatClampNeg word valid.1]

/-- An op with a fixed text writes the text and does nothing else. -/
theorem effect_of_fixedText? {op : Op} {text : String} (found : op.fixedText? = some text)
    (state : State) :
    op.run state = state ∧ op.events state = (Op.printText text).events state := by
  unfold Op.fixedText? at found
  split at found
  · rename_i value
    simp only [Option.map_eq_some_iff, Option.bind_eq_some_iff] at found
    rcases found with ⟨char, ⟨word, constant, isChar⟩, rfl⟩
    rw [Expr.eq_const_of_constant? constant]
    refine ⟨rfl, ?_⟩
    simp [Op.events, Expr.eval, ofNat_of_char? isChar, Char.toString]
  · cases found
    exact ⟨rfl, rfl⟩
  · cases found

theorem depthAfter_of_fixedText? {op : Op} {text : String} (found : op.fixedText? = some text)
    (depth : Nat) : op.depthAfter depth = depth := by
  cases op <;> simp_all [Op.fixedText?, Op.depthAfter, Op.pops, Op.pushes]

theorem reliable_fuseText : fuseText.Reliable := by
  apply reliable_of_fuse rfl
  intro links accepted
  simp only [fuseText, List.forall₂_cons_left_iff, List.forall₂_nil_left_iff, single_iff,
    Option.isSome_iff_exists] at accepted
  rcases accepted with
    ⟨first, _, ⟨op, single, text, fixed⟩,
      ⟨second, _, ⟨other, singleAgain, otherText, otherFixed⟩, rfl, rfl⟩, rfl⟩
  simp only [List.map_cons, List.map_nil, single, singleAgain]
  refine ⟨.single (.printText (text ++ otherText)), by simp [fixed, otherFixed],
    supplants_of_op (.printText (text ++ otherText)) op [other] ?_ ?_ ?_ ?_
      (cheaper_of_consumer _ op other [] rfl ?_ ?_)⟩
  · intro state
    simp only [State.events, (effect_of_fixedText? fixed state).1,
      (effect_of_fixedText? fixed state).2, (effect_of_fixedText? otherFixed state).2,
      List.append_nil]
    simp [Op.events]
  · intro state
    apply State.Similar.of_eq
    simp only [State.run, (effect_of_fixedText? fixed state).1,
      (effect_of_fixedText? otherFixed state).1]
    rfl
  · simp [Op.vars, Op.ownVariable, Op.expressions]
  · simp [Op.peeks, Op.readsStack, Op.expressions]
  · intro depth
    simp only [List.map_cons, List.map_nil, depthThrough_cons, depthThrough_nil,
      Kind.depthAfter_single, depthAfter_of_fixedText? fixed, depthAfter_of_fixedText? otherFixed]
    exact le_rfl
  · simp [Op.memoryAccesses, Op.ownMemoryAccess, Op.expressions]

theorem reliable_foldDecision : foldDecision.Reliable := by
  apply reliable_of_fuse rfl
  intro links accepted
  simp only [foldDecision, List.forall₂_cons_left_iff, List.forall₂_nil_left_iff, single_iff,
    isPush_iff, decide_eq_true_eq] at accepted
  rcases accepted with ⟨first, _, ⟨_, push, value, rfl⟩, ⟨second, _, decision, rfl, rfl⟩, rfl⟩
  simp only [List.map_cons, List.map_nil, push, decision]
  refine ⟨_, rfl, ⟨⟨⟨fun _ => rfl, fun state => .refl state, fun _ _ => rfl⟩, ?_⟩, by simp, ?_, ?_,
    cheaper_exprDecision value⟩⟩
  · simp [Kind.vars, Kind.ops, Kind.test?, Kind.exit, Op.vars, Op.ownVariable, Op.expressions]
  · rintro last final ⟨⟩ ⟨⟩
    rfl
  · intro state
    simp [State.peeked, State.peekedBy, State.run, Kind.ops, Kind.test?, Kind.exit]

theorem straight_iff {vertex : Vertex} : straight vertex = true ↔ vertex.kind.exit = .next := by
  simp [straight, Kind.isSplit_eq_false_iff]

theorem reliable_combineBlock : combineBlock.Reliable := by
  apply reliable_of_fuse rfl
  intro links accepted
  simp only [combineBlock, List.forall₂_cons_left_iff, List.forall₂_nil_left_iff,
    straight_iff] at accepted
  rcases accepted with ⟨first, _, straight, ⟨second, _, straightAgain, rfl, rfl⟩, rfl⟩
  exact ⟨_, rfl, supplants_of_fusion straight rfl (by simp [Kind.ops]) straightAgain.symm⟩

theorem reliable_combineDecisionBlock : combineDecisionBlock.Reliable := by
  apply reliable_of_fuse rfl
  intro links accepted
  simp only [combineDecisionBlock, List.forall₂_cons_left_iff, List.forall₂_nil_left_iff,
    straight_iff, Kind.popsTest, decide_eq_true_eq] at accepted
  rcases accepted with ⟨first, _, straight, ⟨second, _, pops, rfl, rfl⟩, rfl⟩
  exact ⟨_, rfl, supplants_of_fusion straight rfl (by simp [Kind.ops]) pops.symm⟩

theorem reliable_combineExprDecisionBlock : combineExprDecisionBlock.Reliable := by
  apply reliable_of_fuse rfl
  intro links accepted
  simp only [combineExprDecisionBlock, List.forall₂_cons_left_iff, List.forall₂_nil_left_iff,
    straight_iff] at accepted
  rcases accepted with ⟨first, _, straight, ⟨second, _, decides, rfl, rfl⟩, rfl⟩
  rcases Option.isSome_iff_exists.mp decides with ⟨test, tested⟩
  refine ⟨.exprDecisionBlock (first.vertex.kind.ops ++ second.vertex.kind.ops) test,
    by simp [tested], supplants_of_fusion straight rfl rfl ?_⟩
  exact (Kind.test?_eq_some_iff.mp tested).symm

theorem reliable_of_mem_peephole {rule : Rule} (member : rule ∈ peephole) : rule.Reliable := by
  simp only [peephole, List.mem_cons, List.not_mem_nil, or_false] at member
  rcases member with
    rfl | rfl | rfl | rfl | rfl | rfl | rfl | rfl | rfl | rfl | rfl | rfl | rfl | rfl | rfl |
    rfl | rfl
  · exact reliable_removeNop
  · exact reliable_pushPop
  · exact reliable_dupPop
  · exact reliable_swapSwap
  · exact reliable_foldMath
  · exact reliable_foldNot
  · exact reliable_duplicatePush
  · exact reliable_dupToPeek
  · exact reliable_swapPushes
  · exact reliable_foldGet
  · exact reliable_foldSet
  · exact reliable_foldOutput
  · exact reliable_fuseText
  · exact reliable_varGetToPush
  · exact reliable_foldVarSet
  · exact reliable_foldInputVarSet
  · exact reliable_foldDecision

theorem reliable_of_mem_fusion {rule : Rule} (member : rule ∈ fusion) : rule.Reliable := by
  simp only [fusion, List.mem_cons, List.not_mem_nil, or_false] at member
  rcases member with rfl | rfl | rfl
  · exact reliable_combineBlock
  · exact reliable_combineDecisionBlock
  · exact reliable_combineExprDecisionBlock

/-- For every chain that it accepts, a rule of the optimizer builds vertices that do the same as the
chain, and what they see on top of the stack the chain has seen there too. -/
theorem catalogue_imitates {rule : Rule} {chain : Chain} (member : rule ∈ peephole ∨ rule ∈ fusion)
    (accepted : rule.Accepts chain) :
    ∃ nodes, rule.build? chain = some nodes ∧
      Imitates (nodes.map Node.kind) (chain.nodes.map Node.kind) ∧
      ∀ state : State, (state.peeked (nodes.map Node.kind)).Sublist
        (state.peeked (chain.nodes.map Node.kind)) := by
  have reliable : rule.Reliable := by
    rcases member with member | member
    · exact reliable_of_mem_peephole member
    · exact reliable_of_mem_fusion member
  rcases reliable accepted with ⟨nodes, built, supplants⟩
  exact ⟨nodes, built, supplants.toImitates, supplants.peeked⟩

/-- Takes three from a copy of the top of the stack. -/
def topMinusThree : Chain where
  head := ⟨⟨0⟩, { kind := .single (.push .peek), children := [⟨1⟩] }⟩
  rest := [
    ⟨⟨1⟩, { kind := .single (.push (.const 3)), children := [⟨2⟩], parents := [⟨0⟩] }⟩,
    ⟨⟨2⟩, { kind := .single (.math .sub), parents := [⟨1⟩] }⟩]

theorem catalogue_imitates_topMinusThree :
    foldMath ∈ peephole ∧ foldMath.Accepts topMinusThree ∧
      ∃ nodes, foldMath.build? topMinusThree = some nodes ∧
        Imitates (nodes.map Node.kind) (topMinusThree.nodes.map Node.kind) ∧
        ∀ state : State,
          (state.peeked (nodes.map Node.kind)).Sublist
            (state.peeked (topMinusThree.nodes.map Node.kind)) := by
  have member : foldMath ∈ peephole := by simp [peephole]
  have accepted : foldMath.Accepts topMinusThree := .cons rfl (.cons rfl (.cons rfl .nil))
  exact ⟨member, accepted, catalogue_imitates (.inl member) accepted⟩

end Rule

end StackFlow
