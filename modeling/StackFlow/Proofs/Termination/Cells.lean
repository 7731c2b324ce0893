import Mathlib
import StackFlow.Proofs.Cells
import StackFlow.Proofs.Termination.Rank

/-!
# Cells move once

Cells move to variables only if all coordinates are literals, and then every cell of
the grid that is accessed moves. The accesses that are left go beyond the grid. From
then on no cell can move any more, so this pass changes a graph once at most as long
as the others bring in no new accesses.
-/

namespace StackFlow

namespace Expr

variable {expr lhs rhs : Expr} {op : Operator} {pred : Expr → Bool} {replace : Expr → Expr}
  {access : MemoryAccess}

theorem memoryReads_truth_subset (expr : Expr) : expr.truth.memoryReads ⊆ expr.memoryReads := by
  intro access
  simp only [mem_memoryReads_iff]
  rintro ⟨x, y, read, same⟩
  exact ⟨x, y, sources_truth_subset expr read, same⟩

theorem mem_memoryReads_of_substitute_binary (kept : pred (.binary op lhs rhs) = false)
    (member : access ∈ ((binary op lhs rhs).substitute pred replace).memoryReads) :
    access ∈ (lhs.substitute pred replace).memoryReads ∨
      access ∈ (rhs.substitute pred replace).memoryReads := by
  simp only [substitute, substitute?, kept, Bool.false_eq_true, if_false] at member ⊢
  split at member
  · rename_i leftKept rightKept
    rw [leftKept, rightKept]
    simpa [memoryReads] using member
  · exact mem_memoryReads_of_mem_combine member

theorem memoryReads_substitute_not_subset (kept : pred (.not expr) = false) :
    ((not expr).substitute pred replace).memoryReads ⊆
      (expr.substitute pred replace).memoryReads := by
  simp only [substitute, substitute?, kept, Bool.false_eq_true, if_false]
  cases expr.substitute? pred replace with
  | none => simp [memoryReads]
  | some changed => exact memoryReads_negation_subset changed

theorem memoryReads_substitute_boolCast_subset (kept : pred (.boolCast expr) = false) :
    ((boolCast expr).substitute pred replace).memoryReads ⊆
      (expr.substitute pred replace).memoryReads := by
  simp only [substitute, substitute?, kept, Bool.false_eq_true, if_false]
  cases expr.substitute? pred replace with
  | none => simp [memoryReads]
  | some changed => exact memoryReads_truth_subset changed

end Expr

theorem MemoryAccess.cell?_eq_some_iff {access : MemoryAccess} {column row : Word} :
    access.cell? = some (column, row) ↔ access = .constant column row := by
  cases access <;> simp [cell?]

namespace CellMap

variable {map : CellMap} {access : MemoryAccess}

/-- The access is one of the given and goes to no cell that has a variable. -/
def Spares (map : CellMap) (accesses : List MemoryAccess) (access : MemoryAccess) : Prop :=
  access ∈ accesses ∧ ∀ column row, access = .constant column row →
    map.var? (.const column) (.const row) = none

theorem Spares.mono {accesses others : List MemoryAccess} (spares : map.Spares accesses access)
    (subset : accesses ⊆ others) : map.Spares others access :=
  ⟨subset spares.1, spares.2⟩

theorem spares_constant {accesses : List MemoryAccess} {column row : Word}
    (member : .constant column row ∈ accesses)
    (absent : map.var? (.const column) (.const row) = none) :
    map.Spares accesses (.constant column row) := by
  refine ⟨member, ?_⟩
  rintro _ _ ⟨rfl, rfl⟩
  exact absent

theorem spares_of_mem_expr {expr : Expr} (fixed : Fixed expr.memoryReads)
    (member : access ∈ (map.expr expr).memoryReads) : map.Spares expr.memoryReads access := by
  unfold CellMap.expr at member
  induction expr with
  | const value | var id | peek =>
      simp [Expr.substitute, Expr.substitute?, read?, Expr.memoryReads] at member
  | not operand ih =>
      exact ih fixed (Expr.memoryReads_substitute_not_subset (by simp [read?]) member)
  | boolCast operand ih =>
      exact ih fixed (Expr.memoryReads_substitute_boolCast_subset (by simp [read?]) member)
  | binary op lhs rhs left right =>
      rcases Expr.mem_memoryReads_of_substitute_binary (by simp [read?]) member with
        inLeft | inRight
      · apply (left (fun access member => fixed access (List.mem_append_left _ member)) inLeft).mono
        exact List.subset_append_left _ _
      · apply (right (fun access member => fixed access (List.mem_append_right _ member))
          inRight).mono
        exact List.subset_append_right _ _
  | memory x y _ _ =>
      rcases MemoryAccess.exists_const_of_isConstant (fixed _ (List.mem_cons_self ..)) with
        ⟨column, row, rfl, rfl⟩
      cases found : map.var? (.const column) (.const row) with
      | none =>
          have same : access = .constant column row := by
            simpa [Expr.substitute, Expr.substitute?, read?, found, Expr.memoryReads,
              MemoryAccess.ofCoordinates, Expr.constant?] using member
          subst same
          exact spares_constant (List.mem_cons_self ..) found
      | some var =>
          simp [Expr.substitute, Expr.substitute?, read?, found, Expr.memoryReads] at member

theorem spares_of_mem_op {op : Op} (fixed : Fixed op.memoryAccesses)
    (member : access ∈ (map.op op).memoryAccesses) : map.Spares op.memoryAccesses access := by
  have reads {value : Expr} (listed : value ∈ op.expressions)
      (read : access ∈ (map.expr value).memoryReads) :
      map.Spares op.memoryAccesses access := by
    have subset : value.memoryReads ⊆ op.memoryAccesses := fun access inValue =>
      List.mem_append_right _ (List.mem_flatMap.mpr ⟨value, listed, inValue⟩)
    exact (spares_of_mem_expr (fun access inValue => fixed access (subset inValue)) read).mono
      subset
  have ownFixed : Fixed op.ownMemoryAccess :=
    fun access member => fixed access (List.mem_append_left _ member)
  cases op with
  | get | set =>
      have dynamic := ownFixed .stack (by simp [Op.ownMemoryAccess])
      simp [MemoryAccess.isConstant, MemoryAccess.cell?] at dynamic
  | push value | print value format | assign var value =>
      apply reads (List.mem_singleton_self value)
      simpa [CellMap.op, Op.mapExpressions, Op.memoryAccesses, Op.ownMemoryAccess,
        Op.expressions] using member
  | load x y =>
      rcases MemoryAccess.exists_const_of_isConstant (ownFixed _ (List.mem_cons_self ..)) with
        ⟨column, row, rfl, rfl⟩
      cases found : map.var? (.const column) (.const row) with
      | none =>
          have same : access = .constant column row := by
            simpa [CellMap.op, Op.mapExpressions, found, Op.memoryAccesses, Op.ownMemoryAccess,
              Op.expressions, Expr.memoryReads, MemoryAccess.ofCoordinates,
              Expr.constant?] using member
          subst same
          exact spares_constant (List.mem_cons_self ..) found
      | some var =>
          simp [CellMap.op, Op.mapExpressions, found, Op.memoryAccesses, Op.ownMemoryAccess,
            Op.expressions, Expr.memoryReads] at member
  | store x y value =>
      rcases MemoryAccess.exists_const_of_isConstant (ownFixed _ (List.mem_cons_self ..)) with
        ⟨column, row, rfl, rfl⟩
      have inValue (read : access ∈ (map.expr value).memoryReads) :=
        reads (by simp [Op.expressions]) read
      cases found : map.var? (.const column) (.const row) with
      | none =>
          have cases : access = .constant column row ∨ access ∈ (map.expr value).memoryReads := by
            simpa [CellMap.op, Op.mapExpressions, found, Op.memoryAccesses, Op.ownMemoryAccess,
              Op.expressions, Expr.memoryReads, MemoryAccess.ofCoordinates,
              Expr.constant?] using member
          rcases cases with rfl | read
          · exact spares_constant (List.mem_cons_self ..) found
          · exact inValue read
      | some var =>
          apply inValue
          simpa [CellMap.op, Op.mapExpressions, found, Op.memoryAccesses, Op.ownMemoryAccess,
            Op.expressions] using member
  | _ =>
      simp [CellMap.op, Op.mapExpressions, Op.memoryAccesses, Op.ownMemoryAccess,
        Op.expressions] at member

theorem spares_of_mem_map {kind : Kind} (fixed : Fixed kind.memoryAccesses)
    (member : access ∈ (kind.map map.op map.expr).memoryAccesses) :
    map.Spares kind.memoryAccesses access := by
  rw [Kind.memoryAccesses, Kind.ops_map, Kind.test?_map] at member
  rcases List.mem_append.mp member with inOps | inTest
  · rcases List.mem_flatMap.mp inOps with ⟨changed, listed, inOp⟩
    rcases List.mem_map.mp listed with ⟨op, opMember, rfl⟩
    have subset : op.memoryAccesses ⊆ kind.memoryAccesses := fun access inside =>
      List.mem_append_left _ (List.mem_flatMap.mpr ⟨op, opMember, inside⟩)
    exact (spares_of_mem_op (fun access inside => fixed access (subset inside)) inOp).mono subset
  · rcases List.mem_flatMap.mp inTest with ⟨changed, listed, inExpr⟩
    rw [Option.mem_toList, Option.map_eq_some_iff] at listed
    rcases listed with ⟨test, tested, rfl⟩
    have subset : test.memoryReads ⊆ kind.memoryAccesses := fun access inside =>
      List.mem_append_right _ (List.mem_flatMap.mpr ⟨test, by simp [tested], inside⟩)
    exact (spares_of_mem_expr (fun access inside => fixed access (subset inside)) inExpr).mono
      subset

end CellMap

namespace Graph

variable {graph : Graph}

theorem mem_constantCells_iff {column row : Word} :
    (column, row) ∈ graph.constantCells ↔
      ∃ id vertex, graph.vertex? id = some vertex ∧
        .constant column row ∈ vertex.kind.memoryAccesses := by
  simp only [constantCells, kinds, List.mem_eraseDups, List.mem_flatMap, List.mem_map, Prod.exists,
    mem_vertices, Kind.constantCells, List.mem_filterMap, MemoryAccess.cell?_eq_some_iff,
    exists_eq_right]
  constructor
  · rintro ⟨_, ⟨id, vertex, found, rfl⟩, member⟩
    exact ⟨id, vertex, found, member⟩
  · rintro ⟨id, vertex, found, member⟩
    exact ⟨vertex.kind, ⟨id, vertex, found, rfl⟩, member⟩

theorem promotableCells_of_settled (settled : graph.Settled) : graph.promotableCells = [] := by
  have outside : ∀ cell ∈ graph.constantCells, ¬graph.grid.contains cell.1 cell.2 = true := by
    rintro ⟨column, row⟩ listed
    rcases mem_constantCells_iff.mp listed with ⟨id, vertex, found, member⟩
    rcases settled id vertex found _ member with ⟨x, y, same, outside⟩
    cases same
    simp [outside]
  unfold promotableCells
  split_ifs
  · rw [List.filter_eq_nil_iff.mpr outside, List.mergeSort_nil]
  · rfl

theorem mem_promotableCells (static : graph.dynamicAccesses = []) {id : VertexId} {vertex : Vertex}
    {column row : Word} (found : graph.vertex? id = some vertex)
    (member : .constant column row ∈ vertex.kind.memoryAccesses)
    (inside : graph.grid.contains column row = true) : (column, row) ∈ graph.promotableCells := by
  rw [promotableCells, if_pos (by simp [static]), List.mem_mergeSort, List.mem_filter]
  exact ⟨mem_constantCells_iff.mpr ⟨id, vertex, found, member⟩, inside⟩

/-- All cells that can be accessed have moved. -/
theorem settled_withCells (nonempty : graph.promotableCells ≠ []) : graph.withCells.Settled := by
  have static := dynamicAccesses_of_promotableCells nonempty
  intro id twin twinFound access member
  rcases graph.withCells_rekinded.exists_vertex twinFound with ⟨vertex, found, rfl⟩
  have fixed := fixed_of_dynamicAccesses static found
  have spares := CellMap.spares_of_mem_map fixed member
  cases access with
  | constant column row =>
      refine ⟨column, row, rfl, ?_⟩
      by_contra inside
      rw [Bool.not_eq_false] at inside
      have listed : (column, row) ∈ graph.cellMap.cells :=
        mem_promotableCells static found spares.1 inside
      have absent := spares.2 column row rfl
      rcases Option.isSome_iff_exists.mp (List.isSome_idxOf?.mpr listed) with ⟨index, place⟩
      rw [CellMap.var?_eq_some_iff.mpr ⟨index, place, rfl⟩] at absent
      cases absent
  | computed x y =>
      exact absurd (fixed _ spares.1) (by simp [MemoryAccess.isConstant, MemoryAccess.cell?])
  | stack => exact absurd (fixed _ spares.1) (by simp [MemoryAccess.isConstant, MemoryAccess.cell?])

/-- Moving cells to variables leaves the graph alone, or it lowers the rank. -/
theorem promoteCells_rank (graph : Graph) :
    graph.promoteCells.2 = 0 ∨ graph.promoteCells.1.rank < graph.rank := by
  by_cases empty : graph.promotableCells = []
  · exact .inl (by simp [promoteCells, empty])
  · right
    rw [promoteCells_of_nonempty empty]
    exact rank_lt_of_settled (fun settled => empty (promotableCells_of_settled settled))
      (settled_withCells empty)

end Graph

end StackFlow
