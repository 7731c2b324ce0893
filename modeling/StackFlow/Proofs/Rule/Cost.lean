import Mathlib
import StackFlow.Proofs.Depth.Clamping

/-!
# What a run of vertices costs

Replacing a run of vertices by another should pay in every respect. The new run
leaves the stack no deeper, and gets no deeper on its way. It weighs less, where
the weights are chosen such that every rule lowers them: a copy of the top counts
more than a push of the top, and that more than a push of anything else. And it
accesses no other grid cells, as far as the cells are known.

Depths grow with the depth at the start, so runs can be compared from the same
start and then used from different ones.
-/

namespace StackFlow

namespace Kind

theorem le_peakOf (ops : List Op) (depth : Nat) : depth ≤ peakOf ops depth := by
  cases ops with
  | nil => exact le_rfl
  | cons op ops => exact le_max_left _ _

theorem peakOf_mono (ops : List Op) {depth deeper : Nat} (le : depth ≤ deeper) :
    peakOf ops depth ≤ peakOf ops deeper := by
  induction ops generalizing depth deeper with
  | nil => exact le
  | cons op ops ih => exact max_le_max le (ih (op.depthAfter_mono le))

theorem foldl_depthAfter_le_peakOf (ops : List Op) (depth : Nat) :
    ops.foldl (fun current op => op.depthAfter current) depth ≤ peakOf ops depth := by
  induction ops generalizing depth with
  | nil => exact le_rfl
  | cons op ops ih => exact (ih (op.depthAfter depth)).trans (le_max_right _ _)

theorem le_peak (kind : Kind) (depth : Nat) : depth ≤ kind.peak depth :=
  le_peakOf kind.ops depth

theorem peak_mono (kind : Kind) {depth deeper : Nat} (le : depth ≤ deeper) :
    kind.peak depth ≤ kind.peak deeper :=
  peakOf_mono kind.ops le

@[simp]
theorem depthAfter_single (op : Op) (depth : Nat) :
    (single op).depthAfter depth = op.depthAfter depth := rfl

@[simp]
theorem peak_single (op : Op) (depth : Nat) :
    (single op).peak depth = max depth (op.depthAfter depth) := rfl

theorem peakOf_append (first second : List Op) (depth : Nat) :
    peakOf (first ++ second) depth =
      max (peakOf first depth)
        (peakOf second (first.foldl (fun current op => op.depthAfter current) depth)) := by
  induction first generalizing depth with
  | nil => exact (max_eq_right (le_peakOf second depth)).symm
  | cons op first ih => simp only [List.cons_append, peakOf, ih, List.foldl_cons, max_assoc]

@[simp]
theorem memoryAccesses_single (op : Op) : (single op).memoryAccesses = op.memoryAccesses := by
  simp [memoryAccesses, ops, test?, exit]

end Kind

/-- The depth after a run of vertices. -/
def depthThrough (kinds : List Kind) (depth : Nat) : Nat :=
  kinds.foldl (fun current kind => kind.depthAfter current) depth

/-- The greatest depth on the way through a run of vertices, and zero for no run at all. -/
def peakThrough : List Kind → Nat → Nat
  | [], _ => 0
  | kind :: kinds, depth => max (kind.peak depth) (peakThrough kinds (kind.depthAfter depth))

@[simp]
theorem depthThrough_nil (depth : Nat) : depthThrough [] depth = depth := rfl

@[simp]
theorem depthThrough_cons (kind : Kind) (kinds : List Kind) (depth : Nat) :
    depthThrough (kind :: kinds) depth = depthThrough kinds (kind.depthAfter depth) := rfl

theorem le_peakThrough {kinds : List Kind} (nonempty : kinds ≠ []) (depth : Nat) :
    depth ≤ peakThrough kinds depth := by
  cases kinds with
  | nil => exact absurd rfl nonempty
  | cons kind kinds => exact (kind.le_peak depth).trans (le_max_left _ _)

/-- The weight of an op that stands alone. -/
def Op.weight : Op → Nat
  | .dup => 3
  | .push .peek | .varGet _ | .not => 2
  | _ => 1

/-- What a vertex contributes to the work that is left. -/
def Kind.weight (kind : Kind) : Nat :=
  match kind with
  | .single op => op.weight
  | .block _ => 1
  | .decision | .exprDecision _ | .decisionBlock _ | .exprDecisionBlock _ _ | .random => 2

@[simp]
theorem Kind.weight_single (op : Op) : (single op).weight = op.weight := rfl

theorem Op.weight_pos (op : Op) : 0 < op.weight := by
  unfold weight
  split <;> omega

theorem Kind.weight_pos (kind : Kind) : 0 < kind.weight := by
  cases kind with
  | single op => exact op.weight_pos
  | block | decision | exprDecision | decisionBlock | exprDecisionBlock | random => simp [weight]

/-- No vertex with the same kind of exit weighs less than a fused one. -/
theorem Kind.weight_le_of_isBlock {fused kind : Kind} (isBlock : fused.isBlock = true)
    (exit : fused.exit = kind.exit) : fused.weight ≤ kind.weight := by
  cases fused with
  | block ops => exact kind.weight_pos
  | decisionBlock | exprDecisionBlock => cases kind <;> simp_all [Kind.exit, weight]
  | single | decision | exprDecision | random => cases isBlock

theorem Op.weight_push_le (value : Expr) : (push value).weight ≤ 2 := by
  cases value <;> simp [weight]

theorem Op.weight_push_of_free {value : Expr} (free : value.readsStack = false) :
    (push value).weight = 1 := by
  cases value with
  | peek => simp [Expr.readsStack, Expr.any, Expr.isPeek] at free
  | _ => rfl

def totalWeight (kinds : List Kind) : Nat :=
  (kinds.map Kind.weight).sum

@[simp]
theorem totalWeight_nil : totalWeight [] = 0 := rfl

@[simp]
theorem totalWeight_cons (kind : Kind) (kinds : List Kind) :
    totalWeight (kind :: kinds) = kind.weight + totalWeight kinds := by
  simp [totalWeight]

theorem one_lt_totalWeight (first second : Kind) (kinds : List Kind) :
    1 < totalWeight (first :: second :: kinds) := by
  have firstPositive := first.weight_pos
  have secondPositive := second.weight_pos
  simp only [totalWeight_cons]
  omega

/-- The first run of vertices costs less than the second. The second is a vertex that does nothing,
or it weighs more than such a vertex, so that one can be left behind in its place. -/
structure Cheaper (others kinds : List Kind) : Prop where
  depth : ∀ depth, depthThrough others depth ≤ depthThrough kinds depth
  peak : ∀ depth, peakThrough others depth ≤ peakThrough kinds depth
  weight : totalWeight others < totalWeight kinds
  heavy : kinds = [.single .nop] ∨ 1 < totalWeight kinds
  accesses : (∀ access ∈ kinds.flatMap Kind.memoryAccesses, access.isConstant = true) →
    others.flatMap Kind.memoryAccesses ⊆ kinds.flatMap Kind.memoryAccesses

/-- A vertex that does nothing costs less than what it does the same as, save such a vertex
itself. -/
theorem Cheaper.nop {kinds : List Kind} (cheaper : Cheaper [] kinds)
    (other : kinds ≠ [.single .nop]) : Cheaper [.single .nop] kinds where
  depth := cheaper.depth
  peak depth := by
    have nonempty : kinds ≠ [] := by
      rintro rfl
      exact absurd cheaper.weight (by simp)
    simpa [peakThrough, Op.depthAfter, Op.pops, Op.pushes] using le_peakThrough nonempty depth
  weight := cheaper.heavy.resolve_left other
  heavy := cheaper.heavy
  accesses _ := by
    simp [Kind.memoryAccesses, Kind.ops, Kind.test?, Kind.exit, Op.memoryAccesses,
      Op.ownMemoryAccess, Op.expressions]

section Ops

variable (ops : List Op)

theorem flatMap_memoryAccesses_single :
    (ops.map Kind.single).flatMap Kind.memoryAccesses = ops.flatMap Op.memoryAccesses := by
  simp [List.flatMap_map]

theorem depthThrough_le_peakThrough {ops : List Op} (nonempty : ops ≠ []) (depth : Nat) :
    depthThrough (ops.map .single) depth ≤ peakThrough (ops.map .single) depth := by
  induction ops generalizing depth with
  | nil => exact absurd rfl nonempty
  | cons op ops ih =>
      cases ops with
      | nil => simp [peakThrough]
      | cons next ops => exact (ih (by simp) (op.depthAfter depth)).trans (le_max_right _ _)

end Ops

/-- What can be dropped costs more than nothing. -/
theorem cheaper_of_drop (ops : List Op)
    (depth : ∀ depth, depth ≤ depthThrough (ops.map .single) depth)
    (heavy : ops = [.nop] ∨ 1 < totalWeight (ops.map .single)) : Cheaper [] (ops.map .single) where
  depth := depth
  peak _ := Nat.zero_le _
  weight := by
    rcases heavy with rfl | heavy
    · simp [Kind.weight, Op.weight]
    · exact Nat.lt_of_succ_lt heavy
  heavy := heavy.imp_left (congrArg (List.map Kind.single))
  accesses _ := List.nil_subset _

/-- A single op gets as deep as it leaves the stack, so it is compared by that depth. -/
theorem cheaper_of_op (op first : Op) (ops : List Op)
    (depth : ∀ depth, op.depthAfter depth ≤ depthThrough ((first :: ops).map .single) depth)
    (weight : op.weight < totalWeight ((first :: ops).map .single))
    (accesses : (∀ access ∈ (first :: ops).flatMap Op.memoryAccesses, access.isConstant = true) →
      op.memoryAccesses ⊆ (first :: ops).flatMap Op.memoryAccesses) :
    Cheaper [.single op] ((first :: ops).map .single) where
  depth := depth
  peak start := by
    have ends := depthThrough_le_peakThrough (List.cons_ne_nil first ops) start
    have starts : start ≤ peakThrough ((first :: ops).map .single) start :=
      le_peakThrough (by simp) start
    simp only [peakThrough, Kind.peak_single, Nat.max_zero]
    exact max_le starts ((depth start).trans ends)
  weight := weight
  heavy := .inr (lt_of_le_of_lt op.weight_pos weight)
  accesses := by
    rw [flatMap_memoryAccesses_single]
    simpa using accesses

/-- Joining a straight vertex with the next one saves a vertex. -/
theorem cheaper_of_fusion {first second fused : Kind} (straight : first.exit = .next)
    (isBlock : fused.isBlock = true) (ops : fused.ops = first.ops ++ second.ops)
    (exit : fused.exit = second.exit) : Cheaper [fused] [first, second] := by
  have after (depth : Nat) :
      fused.depthAfter depth = second.depthAfter (first.depthAfter depth) := by
    simp [Kind.depthAfter, Kind.depthAfterOps, Kind.popsTest, ops, exit, straight]
  have light := Kind.weight_le_of_isBlock isBlock exit
  have weight : fused.weight < first.weight + second.weight := by
    have positive := first.weight_pos
    omega
  refine ⟨?_, ?_, ?_, ?_, ?_⟩
  · intro depth
    simp [after]
  · intro depth
    have ran : first.depthAfter depth =
        first.ops.foldl (fun current op => op.depthAfter current) depth := by
      simp [Kind.depthAfter, Kind.depthAfterOps, Kind.popsTest, straight]
    simp [peakThrough, Kind.peak, ops, Kind.peakOf_append, ran]
  · simpa using weight
  · right
    have positive := fused.weight_pos
    simp only [totalWeight_cons, totalWeight_nil]
    omega
  · intro _
    simp [Kind.memoryAccesses, Kind.test?, ops, exit, straight]

end StackFlow
