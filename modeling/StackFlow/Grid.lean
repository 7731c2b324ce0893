import StackFlow.Word

/-!
# The memory grid

A rectangle of words. Reading a cell outside the grid yields zero, and writing one does nothing. The
main statement, `read_write`, says what a write does to all later reads.
-/

namespace StackFlow

/-- A rectangle of words. -/
structure Grid where
  /-- The number of columns. -/
  width : Nat
  /-- The number of rows. -/
  height : Nat
  /-- The contents, row by row. -/
  cells : Array Word
  size_cells : cells.size = width * height
deriving DecidableEq

namespace Grid

/-- The contents of a cell that nothing was written to: the code of a space. -/
def emptyCell : Word := 32

/-- A grid of empty cells. -/
def blank (width height : Nat) : Grid where
  width := width
  height := height
  cells := Array.replicate (width * height) emptyCell
  size_cells := Array.size_replicate

/-- A grid of the same size with the given contents, row by row; `none` if their number is not that
of the cells. -/
def refill? (grid : Grid) (cells : List Word) : Option Grid :=
  if fits : cells.length = grid.width * grid.height then
    some { grid with cells := cells.toArray, size_cells := fits }
  else none

/-- The cell lies inside the grid. -/
def contains (grid : Grid) (x y : Word) : Bool :=
  0 ≤ x && 0 ≤ y && x.toNatClampNeg < grid.width && y.toNatClampNeg < grid.height

/-- Where the contents of a cell of the grid stand. -/
def address (grid : Grid) (x y : Word) : Nat :=
  y.toNatClampNeg * grid.width + x.toNatClampNeg

/-- The contents of a cell; zero outside the grid. -/
def read (grid : Grid) (x y : Word) : Word :=
  if grid.contains x y then grid.cells.getD (grid.address x y) 0 else 0

/-- The grid with a cell overwritten; the same grid for a cell outside. -/
def write (grid : Grid) (x y value : Word) : Grid :=
  if grid.contains x y then
    { grid with
      cells := grid.cells.setIfInBounds (grid.address x y) value
      size_cells := by rw [Array.size_setIfInBounds, grid.size_cells] }
  else grid

variable {grid : Grid} {x y column row : Word}

theorem contains_iff :
    grid.contains x y = true ↔
      ((0 ≤ x ∧ 0 ≤ y) ∧ x.toNatClampNeg < grid.width) ∧ y.toNatClampNeg < grid.height := by
  simp [contains]

/-- Every cell of the grid has contents. -/
theorem address_lt (inside : grid.contains x y = true) : grid.address x y < grid.cells.size := by
  obtain ⟨⟨_, columnBound⟩, rowBound⟩ := contains_iff.mp inside
  rw [grid.size_cells, address, Nat.mul_comm grid.width]
  have lastRow : (y.toNatClampNeg + 1) * grid.width ≤ grid.height * grid.width :=
    Nat.mul_le_mul_right _ rowBound
  rw [Nat.add_mul, Nat.one_mul] at lastRow
  omega

/-- Words that are not negative are told apart by their magnitude. -/
theorem eq_of_toNatClampNeg_eq (xPos : 0 ≤ x) (yPos : 0 ≤ y)
    (same : x.toNatClampNeg = y.toNatClampNeg) : x = y := by
  rw [Int64.le_iff_toInt_le] at xPos yPos
  rw [Int64.toInt_zero] at xPos yPos
  apply Int64.toInt_inj.mp
  simp only [Int64.toNatClampNeg] at same
  omega

/-- Different cells of the grid have different addresses. -/
theorem eq_of_address_eq (inside : grid.contains x y = true)
    (insideOther : grid.contains column row = true)
    (same : grid.address x y = grid.address column row) : x = column ∧ y = row := by
  obtain ⟨⟨⟨xPos, yPos⟩, xBound⟩, _⟩ := contains_iff.mp inside
  obtain ⟨⟨⟨columnPos, rowPos⟩, columnBound⟩, _⟩ := contains_iff.mp insideOther
  have rows : y.toNatClampNeg = row.toNatClampNeg := by
    have quotients := congrArg (· / grid.width) same
    simpa [address, Nat.mul_comm _ grid.width, Nat.mul_add_div (Nat.zero_lt_of_lt xBound),
      Nat.div_eq_of_lt xBound, Nat.div_eq_of_lt columnBound] using quotients
  have columns : x.toNatClampNeg = column.toNatClampNeg := by
    simpa [address, rows] using same
  exact ⟨eq_of_toNatClampNeg_eq xPos columnPos columns, eq_of_toNatClampNeg_eq yPos rowPos rows⟩

theorem read_of_not_contains (outside : grid.contains x y = false) : grid.read x y = 0 := by
  simp [read, outside]

/-- A write leaves the extent of the grid as it is. -/
@[simp]
theorem contains_write (value : Word) :
    (grid.write column row value).contains x y = grid.contains x y := by
  unfold write
  split <;> rfl

/-- A read after a write yields the value written if it reads the same cell of the grid, and else
what it yielded before. -/
theorem read_write (value : Word) :
    (grid.write column row value).read x y =
      if grid.contains column row = true ∧ x = column ∧ y = row then value else grid.read x y := by
  cases written : grid.contains column row with
  | false => simp [write, written]
  | true =>
    cases inside : grid.contains x y with
    | false =>
      have other : ¬(x = column ∧ y = row) := by
        rintro ⟨rfl, rfl⟩
        simp [inside] at written
      simp [read, inside, other]
    | true =>
      have stored : (grid.write column row value).read x y =
          (grid.cells.setIfInBounds (grid.address column row) value).getD (grid.address x y) 0 := by
        rw [read, contains_write, if_pos inside]
        simp [write, written, address]
      rw [stored, Array.getD_eq_getD_getElem?, Array.getElem?_setIfInBounds]
      by_cases same : x = column ∧ y = row
      · obtain ⟨rfl, rfl⟩ := same
        simp [address_lt inside]
      · have apart : grid.address column row ≠ grid.address x y := fun equal =>
          same (eq_of_address_eq inside written equal.symm)
        simp [apart, same, read, inside, Array.getD_eq_getD_getElem?]

end Grid

end StackFlow
