import Mathlib
import StackFlow.Depth

/-!
# Pops past the bottom

How the depth after a vertex depends on the depth before it. Without the bottom
of the stack a vertex would add its `delta`; a pop that finds nothing makes the
depth greater than that. A vertex that pops past the bottom leaves no more than
it pushes, and one that does not, adds its `delta` at every greater depth too.
-/

namespace StackFlow

namespace Op

theorem depth_add_delta_le (op : Op) (depth : Nat) :
    (depth : Int) + op.delta ≤ op.depthAfter depth := by
  simp only [delta, depthAfter]
  omega

theorem depthAfter_add_le (op : Op) (depth extra : Nat) :
    op.depthAfter (depth + extra) ≤ op.depthAfter depth + extra := by
  simp only [depthAfter]
  omega

theorem depthAfter_mono (op : Op) {depth deeper : Nat} (le : depth ≤ deeper) :
    op.depthAfter depth ≤ op.depthAfter deeper := by
  simp only [depthAfter]
  omega

end Op

namespace Kind

/-- The number of values that the ops of a vertex push. -/
def pushes (kind : Kind) : Nat :=
  kind.ops.foldl (fun total op => total + op.pushes) 0

section Runs

variable (ops : List Op)

theorem foldl_add_delta (start : Int) :
    ops.foldl (fun total op => total + op.delta) start =
      start + ops.foldl (fun total op => total + op.delta) 0 := by
  induction ops generalizing start with
  | nil => simp
  | cons op ops ih =>
      simp only [List.foldl_cons]
      rw [ih, ih (0 + op.delta)]
      omega

theorem foldl_add_pushes (start : Nat) :
    ops.foldl (fun total op => total + op.pushes) start =
      start + ops.foldl (fun total op => total + op.pushes) 0 := by
  induction ops generalizing start with
  | nil => simp
  | cons op ops ih =>
      simp only [List.foldl_cons]
      rw [ih, ih (0 + op.pushes)]
      omega

theorem depth_add_delta_le_foldl (depth : Nat) :
    (depth : Int) + ops.foldl (fun total op => total + op.delta) 0 ≤
      (ops.foldl (fun current op => op.depthAfter current) depth : Nat) := by
  induction ops generalizing depth with
  | nil => simp
  | cons op ops ih =>
      have first := op.depth_add_delta_le depth
      have others := ih (op.depthAfter depth)
      simp only [List.foldl_cons]
      rw [foldl_add_delta]
      omega

theorem foldl_depthAfter_mono {depth deeper : Nat} (le : depth ≤ deeper) :
    ops.foldl (fun current op => op.depthAfter current) depth ≤
      ops.foldl (fun current op => op.depthAfter current) deeper := by
  induction ops generalizing depth deeper with
  | nil => simpa
  | cons op ops ih => exact ih (op.depthAfter_mono le)

theorem foldl_depthAfter_add_le (depth extra : Nat) :
    ops.foldl (fun current op => op.depthAfter current) (depth + extra) ≤
      ops.foldl (fun current op => op.depthAfter current) depth + extra := by
  induction ops generalizing depth with
  | nil => simp
  | cons op ops ih =>
      simp only [List.foldl_cons]
      exact (foldl_depthAfter_mono ops (op.depthAfter_add_le depth extra)).trans (ih _)

theorem foldl_depthAfter_le (depth : Nat) :
    ops.foldl (fun current op => op.depthAfter current) depth ≤
      depth + ops.foldl (fun total op => total + op.pushes) 0 := by
  induction ops generalizing depth with
  | nil => simp
  | cons op ops ih =>
      have others := ih (op.depthAfter depth)
      simp only [List.foldl_cons]
      rw [foldl_add_pushes]
      simp only [Op.depthAfter] at others ⊢
      omega

/-- Either every op found what it pops, or the pushes since an op that did not
are all that is left. -/
theorem foldl_depthAfter_eq_or_le (depth : Nat) :
    ((ops.foldl (fun current op => op.depthAfter current) depth : Nat) : Int) =
        depth + ops.foldl (fun total op => total + op.delta) 0 ∨
      ops.foldl (fun current op => op.depthAfter current) depth ≤
        ops.foldl (fun total op => total + op.pushes) 0 := by
  induction ops generalizing depth with
  | nil => simp
  | cons op ops ih =>
      simp only [List.foldl_cons]
      rw [foldl_add_delta, foldl_add_pushes]
      by_cases found : op.pops ≤ depth
      · rcases ih (op.depthAfter depth) with exactly | shallow
        · left
          simp only [Op.depthAfter, Op.delta] at exactly ⊢
          omega
        · right
          omega
      · right
        have others := foldl_depthAfter_le ops (op.depthAfter depth)
        simp only [Op.depthAfter] at others ⊢
        omega

end Runs

variable {kind : Kind} {depth : Nat}

theorem depth_add_delta_le_depthAfter (kind : Kind) (depth : Nat) :
    (depth : Int) + kind.delta ≤ kind.depthAfter depth := by
  have ops := depth_add_delta_le_foldl kind.ops depth
  simp only [delta, depthAfter, depthAfterOps]
  split_ifs <;> omega

theorem depthAfter_mono (kind : Kind) {depth deeper : Nat} (le : depth ≤ deeper) :
    kind.depthAfter depth ≤ kind.depthAfter deeper := by
  have ops := foldl_depthAfter_mono kind.ops le
  simp only [depthAfter, depthAfterOps]
  omega

theorem depthAfter_add_le (kind : Kind) (depth extra : Nat) :
    kind.depthAfter (depth + extra) ≤ kind.depthAfter depth + extra := by
  have ops := foldl_depthAfter_add_le kind.ops depth extra
  simp only [depthAfter, depthAfterOps]
  omega

theorem depthAfter_le (kind : Kind) (depth : Nat) :
    kind.depthAfter depth ≤ depth + kind.pushes := by
  have ops := foldl_depthAfter_le kind.ops depth
  simp only [depthAfter, depthAfterOps, pushes]
  omega

/-- A vertex that does not pop past the bottom does the same at every greater depth. -/
theorem depthAfter_add_of_not_clamps (found : Depth.clamps kind depth = false) (extra : Nat) :
    kind.depthAfter (depth + extra) = kind.depthAfter depth + extra := by
  have exactly : (kind.depthAfter depth : Int) = depth + kind.delta := by
    simpa [Depth.clamps] using found
  have upper := kind.depthAfter_add_le depth extra
  have lower := kind.depth_add_delta_le_depthAfter (depth + extra)
  omega

/-- A vertex that pops past the bottom leaves at most what it pushes. -/
theorem depthAfter_le_of_clamps (clamped : Depth.clamps kind depth = true) :
    kind.depthAfter depth ≤ kind.pushes := by
  have differs : (kind.depthAfter depth : Int) ≠ depth + kind.delta := by
    simpa [Depth.clamps] using clamped
  have ops := foldl_depthAfter_eq_or_le kind.ops depth
  simp only [depthAfter, depthAfterOps, delta, pushes] at differs ⊢
  split_ifs at differs ⊢ <;> omega

end Kind

end StackFlow
