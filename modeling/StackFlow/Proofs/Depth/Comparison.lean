import Mathlib
import StackFlow.Proofs.Behaviour.Simulation
import StackFlow.Proofs.Depth.Exploration
import StackFlow.Proofs.Rule.Cost

/-!
# Comparing the depths of two programs

A program gets no deeper than another if every peak on one of its paths is below
some peak on a path of the other. This is all that the stack size depends on, it
can be composed, and it follows if every vertex of the first program corresponds to
one of the second that is entered at least as deep.

It is enough to know that a vertex is entered at some depth or deeper. The depth
after a vertex grows with the depth before it, so this carries over to what comes
next, and to the exits of a whole stretch of vertices.
-/

namespace StackFlow

namespace Graph

variable {graph other : Graph} {root id next : VertexId} {vertex : Vertex} {depth : Nat}

/-- Some path enters the vertex at the depth or deeper. -/
def Admits (graph : Graph) (id : VertexId) (depth : Nat) : Prop :=
  ∃ path deeper, graph.Enters path id deeper ∧ depth ≤ deeper

namespace Admits

theorem start (isRoot : graph.root = some root) : graph.Admits root 0 :=
  ⟨[], 0, .root isRoot, le_rfl⟩

theorem mono {shallower : Nat} (admits : graph.Admits id depth) (le : shallower ≤ depth) :
    graph.Admits id shallower := by
  rcases admits with ⟨path, deeper, entered, below⟩
  exact ⟨path, deeper, entered, le.trans below⟩

theorem child (admits : graph.Admits id depth) (found : graph.vertex? id = some vertex)
    (member : next ∈ vertex.children) : graph.Admits next (vertex.kind.depthAfter depth) := by
  rcases admits with ⟨path, deeper, entered, below⟩
  exact ⟨_, _, .child entered found member, vertex.kind.depthAfter_mono below⟩

theorem peak (admits : graph.Admits id depth) (found : graph.vertex? id = some vertex) :
    ∃ peak ∈ graph.peaks, vertex.kind.peak depth ≤ peak := by
  rcases admits with ⟨path, deeper, entered, below⟩
  exact ⟨_, ⟨path, id, vertex, deeper, entered, found, rfl⟩, vertex.kind.peak_mono below⟩

/-- A stretch that is entered is left by all its exits. -/
theorem through {kinds : List Kind} {exits : List VertexId} (admits : graph.Admits id depth)
    (stretch : graph.Stretch id kinds exits) {exit : VertexId} (member : exit ∈ exits) :
    graph.Admits exit (depthThrough kinds depth) := by
  induction stretch generalizing depth with
  | last found => exact admits.child found member
  | cons found _ leads _ ih => exact ih (admits.child found (by simp [leads])) member

theorem peakThrough {kinds : List Kind} {exits : List VertexId} (admits : graph.Admits id depth)
    (stretch : graph.Stretch id kinds exits) :
    ∃ peak ∈ graph.peaks, StackFlow.peakThrough kinds depth ≤ peak := by
  induction stretch generalizing depth with
  | last found => simpa [StackFlow.peakThrough] using admits.peak found
  | cons found _ leads _ ih =>
      rcases admits.peak found with ⟨first, isFirst, aboveFirst⟩
      rcases ih (admits.child found (by simp [leads])) with ⟨second, isSecond, aboveSecond⟩
      rcases le_total first second with le | le
      · exact ⟨second, isSecond, max_le (aboveFirst.trans le) aboveSecond⟩
      · exact ⟨first, isFirst, max_le aboveFirst (aboveSecond.trans le)⟩

end Admits

/-- No path of the second program gets deeper than all paths of the first. -/
def NoDeeper (graph other : Graph) : Prop :=
  ∀ peak ∈ other.peaks, ∃ deeper ∈ graph.peaks, peak ≤ deeper

theorem NoDeeper.refl (graph : Graph) : graph.NoDeeper graph :=
  fun peak member => ⟨peak, member, le_rfl⟩

theorem NoDeeper.trans {final : Graph} (first : graph.NoDeeper other)
    (second : other.NoDeeper final) : graph.NoDeeper final := by
  intro peak member
  rcases second peak member with ⟨between, isBetween, below⟩
  rcases first between isBetween with ⟨deeper, isDeeper, above⟩
  exact ⟨deeper, isDeeper, below.trans above⟩

/-- Every vertex of the second program has one of the first in its place that gets at least as deep
and leads to what its children have in their place. -/
theorem noDeeper_of_rename (rename : VertexId → VertexId)
    (start : ∀ {root}, other.root = some root → graph.root = some (rename root))
    (view : ∀ {id vertex}, other.vertex? id = some vertex →
      ∃ before, graph.vertex? (rename id) = some before ∧
      (∀ depth, vertex.kind.depthAfter depth ≤ before.kind.depthAfter depth) ∧
      (∀ depth, vertex.kind.peak depth ≤ before.kind.peak depth) ∧
      ∀ next ∈ vertex.children, rename next ∈ before.children) : graph.NoDeeper other := by
  have admits {path id depth} (entered : other.Enters path id depth) :
      graph.Admits (rename id) depth := by
    induction entered with
    | root isRoot => exact .start (start isRoot)
    | child _ found member ih =>
        rcases view found with ⟨before, foundBefore, after, -, leads⟩
        exact (ih.child foundBefore (leads _ member)).mono (after _)
  rintro peak ⟨path, id, vertex, depth, entered, found, rfl⟩
  rcases view found with ⟨before, foundBefore, -, peaks, -⟩
  rcases (admits entered).peak foundBefore with ⟨deeper, isDeeper, above⟩
  exact ⟨deeper, isDeeper, (peaks depth).trans above⟩

/-- Only vertices and edges are lost, and what the vertices do to the depth is kept. -/
theorem noDeeper_of_view (start : other.root = graph.root)
    (view : ∀ {id vertex}, other.vertex? id = some vertex →
      ∃ before, graph.vertex? id = some before ∧
      (∀ depth, vertex.kind.depthAfter depth ≤ before.kind.depthAfter depth) ∧
      (∀ depth, vertex.kind.peak depth ≤ before.kind.peak depth) ∧
      vertex.children ⊆ before.children) : graph.NoDeeper other := by
  apply noDeeper_of_rename (fun id => id)
  · intro root isRoot
    rw [← start, isRoot]
  · intro id vertex found
    rcases view found with ⟨before, foundBefore, after, peaks, leads⟩
    exact ⟨before, foundBefore, after, peaks, fun next member => leads member⟩

section StackSize

variable {size : StackSize} {bound : Nat}

theorem describes_of_stackSize (valid : graph.Valid) (result : graph.stackSize = .ok size) :
    size.Describes graph := by
  rcases valid_iff.mp valid with ⟨consistent, root, rooted, live, -⟩
  rcases Depth.Exploration.start_sound.run_describes rooted
    fun _ path => consistent.reaches_live path live with ⟨found, ends, describes⟩
  rw [stackSize_of_root rooted, ends] at result
  cases result
  exact describes

/-- A program that gets no deeper than one with a bound has no greater bound. -/
theorem exists_bounded_of_noDeeper (noDeeper : graph.NoDeeper other)
    (bounded : (StackSize.bounded bound).Describes graph) (otherValid : other.Valid)
    (describes : size.Describes other) : ∃ least ≤ bound, size = .bounded least := by
  have below {peak : Nat} (member : peak ∈ other.peaks) : peak ≤ bound := by
    rcases noDeeper peak member with ⟨deeper, isDeeper, above⟩
    exact above.trans (bounded.2 isDeeper)
  cases size with
  | bounded least => exact ⟨least, below describes.1, rfl⟩
  | unbounded =>
      rcases valid_iff.mp otherValid with ⟨consistent, root, rooted, live, -⟩
      rcases describes bound with ⟨path, id, depth, entered, above⟩
      have arrives : Depth.Point.Entered other ⟨id, depth⟩ := ⟨path, entered⟩
      have reached : other.edges.Reaches root id := Depth.entered_reaches rooted arrives
      rcases contains_iff.mp (consistent.reaches_live reached live) with ⟨vertex, found⟩
      have peak := below ⟨path, id, vertex, depth, entered, found, rfl⟩
      have least := vertex.kind.le_peak depth
      omega

end StackSize

end Graph

end StackFlow
