import Mathlib
import StackFlow.Proofs.Termination.Cells

/-!
# Which cells move

A cell is accessed where an op loads or stores it or where an expression reads it. If only literals
occur as coordinates, the cells that move are the cells of the grid that are accessed, each counted
once. They all move together, so the accesses that are left go beyond the grid and the pass has
nothing to do when it runs again.
-/

namespace StackFlow

/-- The coordinates that lie in the grid. -/
def Grid.area (grid : Grid) : Set (Word × Word) :=
  {cell | grid.contains cell.1 cell.2 = true}

theorem MemoryAccess.ofCoordinates_eq_constant_iff {x y : Expr} {column row : Word} :
    ofCoordinates x y = .constant column row ↔ x = .const column ∧ y = .const row := by
  constructor
  · intro same
    rcases exists_const_of_isConstant
      (show (ofCoordinates x y).isConstant = true by rw [same]; rfl) with ⟨column', row', rfl, rfl⟩
    cases same
    exact ⟨rfl, rfl⟩
  · rintro ⟨rfl, rfl⟩
    rfl

theorem Op.mem_ownMemoryAccess_iff {op : Op} {access : MemoryAccess} :
    access ∈ op.ownMemoryAccess ↔
      (access = .stack ∧ (op = .get ∨ op = .set)) ∨
        ∃ x y, (op = .load x y ∨ ∃ value, op = .store x y value) ∧ access = .ofCoordinates x y := by
  cases op <;> simp [ownMemoryAccess]

namespace Kind

/-- The vertex accesses the cell at the coordinates that are written down. -/
inductive Accesses (kind : Kind) (x y : Expr) : Prop
  | load (member : .load x y ∈ kind.ops)
  | store {value : Expr} (member : .store x y value ∈ kind.ops)
  | read {expr : Expr} (member : expr ∈ kind.expressions) (inside : .memory x y ∈ expr.sources)

/-- The vertex takes no coordinates from the stack, and those that are written down are literals for
one of the cells. -/
structure AccessesOnly (kind : Kind) (cells : Set (Word × Word)) : Prop where
  noGet : .get ∉ kind.ops
  noSet : .set ∉ kind.ops
  literal : ∀ {x y}, kind.Accesses x y → ∃ column row, x = .const column ∧ y = .const row ∧
    (column, row) ∈ cells

variable {kind : Kind} {access : MemoryAccess}

theorem mem_memoryAccesses :
    access ∈ kind.memoryAccesses ↔
      (∃ op ∈ kind.ops, access ∈ op.ownMemoryAccess) ∨
        ∃ expr ∈ kind.expressions, access ∈ expr.memoryReads := by
  simp only [memoryAccesses, Op.memoryAccesses, expressions, List.mem_append, List.mem_flatMap]
  constructor
  · rintro (⟨op, listed, own | ⟨expr, member, reads⟩⟩ | ⟨test, tested, reads⟩)
    · exact .inl ⟨op, listed, own⟩
    · exact .inr ⟨expr, .inl ⟨op, listed, member⟩, reads⟩
    · exact .inr ⟨test, .inr tested, reads⟩
  · rintro (⟨op, listed, own⟩ | ⟨expr, ⟨op, listed, member⟩ | tested, reads⟩)
    · exact .inl ⟨op, listed, .inl own⟩
    · exact .inl ⟨op, listed, .inr ⟨expr, member, reads⟩⟩
    · exact .inr ⟨expr, tested, reads⟩

theorem mem_memoryAccesses_iff :
    access ∈ kind.memoryAccesses ↔
      (access = .stack ∧ (.get ∈ kind.ops ∨ .set ∈ kind.ops)) ∨
        ∃ x y, kind.Accesses x y ∧ access = .ofCoordinates x y := by
  simp only [mem_memoryAccesses, Op.mem_ownMemoryAccess_iff, Expr.mem_memoryReads_iff]
  constructor
  · rintro (⟨op, listed, ⟨same, rfl | rfl⟩ | ⟨x, y, rfl | ⟨value, rfl⟩, same⟩⟩ |
      ⟨expr, member, x, y, inside, same⟩)
    · exact .inl ⟨same, .inl listed⟩
    · exact .inl ⟨same, .inr listed⟩
    · exact .inr ⟨x, y, .load listed, same⟩
    · exact .inr ⟨x, y, .store listed, same⟩
    · exact .inr ⟨x, y, .read member inside, same⟩
  · rintro (⟨same, gets | sets⟩ | ⟨x, y, accesses, same⟩)
    · exact .inl ⟨.get, gets, .inl ⟨same, .inl rfl⟩⟩
    · exact .inl ⟨.set, sets, .inl ⟨same, .inr rfl⟩⟩
    · cases accesses with
      | load listed => exact .inl ⟨_, listed, .inr ⟨x, y, .inl rfl, same⟩⟩
      | store listed => exact .inl ⟨_, listed, .inr ⟨x, y, .inr ⟨_, rfl⟩, same⟩⟩
      | read member inside => exact .inr ⟨_, member, x, y, inside, same⟩

theorem constant_mem_memoryAccesses_iff {column row : Word} :
    .constant column row ∈ kind.memoryAccesses ↔ kind.Accesses (.const column) (.const row) := by
  rw [mem_memoryAccesses_iff]
  constructor
  · rintro (⟨same, -⟩ | ⟨x, y, accesses, same⟩)
    · cases same
    · rcases MemoryAccess.ofCoordinates_eq_constant_iff.mp same.symm with ⟨rfl, rfl⟩
      exact accesses
  · intro accesses
    exact .inr ⟨_, _, accesses, rfl⟩

theorem accessesOnly_iff {cells : Set (Word × Word)} :
    kind.AccessesOnly cells ↔
      ∀ access ∈ kind.memoryAccesses, ∃ cell ∈ cells, access = .constant cell.1 cell.2 := by
  simp only [mem_memoryAccesses_iff]
  constructor
  · rintro ⟨noGet, noSet, literal⟩ access (⟨-, gets | sets⟩ | ⟨x, y, accesses, same⟩)
    · exact absurd gets noGet
    · exact absurd sets noSet
    · rcases literal accesses with ⟨column, row, rfl, rfl, member⟩
      exact ⟨(column, row), member, same⟩
  · intro known
    refine ⟨fun gets => ?_, fun sets => ?_, fun {x y} accesses => ?_⟩
    · rcases known .stack (.inl ⟨rfl, .inl gets⟩) with ⟨_, -, same⟩
      cases same
    · rcases known .stack (.inl ⟨rfl, .inr sets⟩) with ⟨_, -, same⟩
      cases same
    · rcases known _ (.inr ⟨x, y, accesses, rfl⟩) with ⟨⟨column, row⟩, member, same⟩
      rcases MemoryAccess.ofCoordinates_eq_constant_iff.mp same with ⟨isColumn, isRow⟩
      exact ⟨column, row, isColumn, isRow, member⟩

end Kind

namespace Graph

variable {graph : Graph}

/-- The cells that some vertex accesses by literal coordinates. -/
def accessedCells (graph : Graph) : Set (Word × Word) :=
  {cell | ∃ id vertex, graph.vertex? id = some vertex ∧
    vertex.kind.Accesses (.const cell.1) (.const cell.2)}

/-- No vertex can access any other cell. -/
def AccessesOnly (graph : Graph) (cells : Set (Word × Word)) : Prop :=
  ∀ id vertex, graph.vertex? id = some vertex → vertex.kind.AccessesOnly cells

theorem mem_accessedCells_iff {cell : Word × Word} :
    cell ∈ graph.accessedCells ↔ cell ∈ graph.constantCells := by
  rw [mem_constantCells_iff]
  simp only [Kind.constant_mem_memoryAccesses_iff]
  rfl

theorem settled_iff : graph.Settled ↔ graph.AccessesOnly graph.grid.areaᶜ := by
  simp only [Settled, AccessesOnly, Kind.accessesOnly_iff, MemoryAccess.Beyond]
  simp [Grid.area, and_comm]

theorem accessesOnly_univ_iff : graph.AccessesOnly Set.univ ↔ graph.dynamicAccesses = [] := by
  constructor
  · intro only
    rw [List.eq_nil_iff_forall_not_mem]
    intro access listed
    simp only [dynamicAccesses, kinds, List.mem_eraseDups, List.mem_flatMap, List.mem_map,
      Prod.exists, mem_vertices, Kind.dynamicAccesses, List.mem_filter] at listed
    rcases listed with ⟨_, ⟨id, vertex, found, rfl⟩, member, dynamic⟩
    rcases Kind.accessesOnly_iff.mp (only id vertex found) access member with ⟨cell, -, rfl⟩
    cases dynamic
  · intro static id vertex found
    rw [Kind.accessesOnly_iff]
    intro access member
    have fixed := fixed_of_dynamicAccesses static found access member
    rcases Option.isSome_iff_exists.mp fixed with ⟨cell, isCell⟩
    exact ⟨cell, Set.mem_univ cell, MemoryAccess.cell?_eq_some_iff.mp isCell⟩

theorem nodup_promotableCells (graph : Graph) : graph.promotableCells.Nodup := by
  unfold promotableCells
  split_ifs
  · apply (List.mergeSort_perm _ _).nodup_iff.mpr
    exact List.Nodup.filter _ (nodup_eraseDups _)
  · exact List.nodup_nil

theorem mem_promotableCells_iff (static : graph.dynamicAccesses = []) {cell : Word × Word} :
    cell ∈ graph.promotableCells ↔ cell ∈ graph.accessedCells ∩ graph.grid.area := by
  rw [promotableCells, if_pos (by simp [static]), List.mem_mergeSort, List.mem_filter,
    Set.mem_inter_iff, mem_accessedCells_iff]
  rfl

/-- The cells that move are counted once each. -/
theorem length_promotableCells (static : graph.dynamicAccesses = []) :
    graph.promotableCells.length = (graph.accessedCells ∩ graph.grid.area).ncard := by
  have same : graph.accessedCells ∩ graph.grid.area = graph.promotableCells.toFinset := by
    ext cell
    rw [← mem_promotableCells_iff static]
    simp
  rw [same, Set.ncard_coe_finset, List.toFinset_card_of_nodup graph.nodup_promotableCells]

theorem promoteCells_of_empty (empty : graph.promotableCells = []) :
    graph.promoteCells = (graph, 0) := by
  simp [promoteCells, empty]

/-- Moving the cells of the grid that are accessed keeps the behaviour. They all move or none does,
and none is left to move a second time. -/
theorem promoteCells_once (valid : graph.validate = .ok ()) (declared : graph.Declared) :
    ∃ other count, graph.promoteCells = (other, count) ∧ graph.BehavesLike other ∧
      (0 < count → graph.AccessesOnly Set.univ ∧
          count = (graph.accessedCells ∩ graph.grid.area).ncard ∧
        other.grid = graph.grid ∧ other.AccessesOnly other.grid.areaᶜ) ∧
      (count = 0 →
        other = graph ∧ (graph.AccessesOnly Set.univ → graph.accessedCells ∩ graph.grid.area = ∅)) ∧
      other.promoteCells = (other, 0) := by
  by_cases empty : graph.promotableCells = []
  · have unchanged := promoteCells_of_empty empty
    refine ⟨graph, 0, unchanged, .refl graph, fun positive => absurd rfl positive.ne,
      fun _ => ⟨rfl, ?_⟩, unchanged⟩
    intro literal
    rw [Set.eq_empty_iff_forall_notMem]
    intro cell accessed
    rw [← mem_promotableCells_iff (accessesOnly_univ_iff.mp literal), empty] at accessed
    cases accessed
  · have moved := promoteCells_of_nonempty empty
    have settled := settled_withCells empty
    have static := dynamicAccesses_of_promotableCells empty
    have alike := (promoteCells_spec (wellFormed_of_validate valid declared)).2
    have count : graph.promoteCells.2 = graph.promotableCells.length := by
      simp [promoteCells, empty]
    have again := promoteCells_of_empty (promotableCells_of_settled settled)
    refine ⟨graph.withCells, _, Prod.ext moved count, moved ▸ alike, fun _ => ?_,
      fun zero => ?_, again⟩
    · exact ⟨accessesOnly_univ_iff.mpr static, length_promotableCells static, rfl,
        settled_iff.mp settled⟩
    · exact absurd (List.length_eq_zero_iff.mp zero) empty

/-- Counts down in a cell, prints another one and also writes to a cell beyond the grid. -/
def countingCell : Graph where
  slots := #[
    some {
      kind := .block
        [.store (.const 1) (.const 0) (.const 3), .store (.const 9) (.const 9) (.const 7)]
      children := [⟨1⟩] },
    some {
      kind := .block [.load (.const 0) (.const 0), .output .number,
        .store (.const 1) (.const 0) (.binary .sub (.memory (.const 1) (.const 0)) (.const 1))]
      children := [⟨2⟩]
      parents := [⟨0⟩, ⟨2⟩] },
    some { kind := .exprDecision (.memory (.const 1) (.const 0)), children := [⟨1⟩, ⟨3⟩],
           parents := [⟨1⟩] },
    some { kind := .single (.print (.memory (.const 9) (.const 9)) .number), parents := [⟨2⟩] }]
  root := some ⟨0⟩
  grid := .blank 2 1
  vars := #[]

/-- Of the three cells, the two in the grid move. -/
theorem promoteCells_once_countingCell :
    countingCell.validate = .ok () ∧ countingCell.Declared ∧ countingCell.promoteCells.2 = 2 ∧
      (countingCell.accessedCells ∩ countingCell.grid.area).ncard = 2 ∧
      countingCell.BehavesLike countingCell.promoteCells.1 ∧
      countingCell.promoteCells.1.AccessesOnly (Grid.blank 2 1).areaᶜ ∧
      countingCell.promoteCells.1.promoteCells = (countingCell.promoteCells.1, 0) := by
  have valid : countingCell.validate = .ok () := by decide +kernel
  have declared : countingCell.Declared := by
    have unused : countingCell.usedVariables = [] := by decide +kernel
    simp [Declared, unused]
  have two : countingCell.promoteCells.2 = 2 := by cbv
  rcases promoteCells_once valid declared with ⟨other, count, moved, alike, moves, -, again⟩
  rw [moved] at two ⊢
  subst two
  rcases moves Nat.two_pos with ⟨-, counted, grid, outside⟩
  rw [grid] at outside
  exact ⟨valid, declared, rfl, counted.symm, alike, outside, again⟩

end Graph

end StackFlow
