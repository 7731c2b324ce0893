import Mathlib
import StackFlow.Graph.Analysis
import StackFlow.Graph.Validity
import StackFlow.Rule.Splice

/-!
# Consistent graphs

The rules of a graph fall into two parts. A graph is consistent if both ends of
every edge record it and every vertex has as many children as its kind allows.
It is rooted if its root reaches every vertex. A pass that removes vertices may
leave a graph consistent and restore the rest at its end, so the two are proved
apart; together they are what `validate` checks.

Consistency is stated with the lists of neighbours of any handle, which are empty
for a handle without a vertex. It then says at once that no edge leads to or comes
from such a handle.
-/

namespace StackFlow

theorem bind_eq_ok_iff {ε α β : Type} {result : Except ε α} {next : α → Except ε β} {value : β} :
    (result >>= next) = .ok value ↔ ∃ first, result = .ok first ∧ next first = .ok value := by
  cases result with
  | error error => simp [bind, Except.bind]
  | ok first => simp [bind, Except.bind]

theorem ite_bind_eq_ok {ε α β : Type} {condition : Prop} [Decidable condition]
    {first second : Except ε α} {next : α → Except ε β} {value : β}
    (result : (if condition then first >>= next else second >>= next) = .ok value) :
    ∃ between, (if condition then first else second) = .ok between ∧ next between = .ok value := by
  rw [← apply_ite (· >>= next)] at result
  exact bind_eq_ok_iff.mp result

theorem nodup_eraseDups {α : Type} [BEq α] [LawfulBEq α] (list : List α) :
    list.eraseDups.Nodup := by
  induction size : list.length using Nat.strong_induction_on generalizing list with
  | _ length ih =>
      cases list with
      | nil => simp
      | cons head tail =>
          have shorter : (tail.filter fun element => !element == head).length < length := by
            have bound := List.length_filter_le (fun element => !element == head) tail
            rw [List.length_cons] at size
            omega
          rw [List.eraseDups_cons, List.nodup_cons]
          refine ⟨?_, ih _ shorter _ rfl⟩
          simp [List.mem_eraseDups]

theorem map_redirect_of_not_mem {old new : VertexId} {ids : List VertexId} (absent : old ∉ ids) :
    ids.map (VertexId.redirect old new) = ids := by
  conv_rhs => rw [← List.map_id ids]
  apply List.map_congr_left
  intro id member
  have apart : id ≠ old := fun same => absent (same ▸ member)
  simp [VertexId.redirect, apart]

/-- The kind allows this number of children. -/
def Kind.Fits (kind : Kind) (children : List VertexId) : Prop :=
  match kind.arity? with
  | some arity => children.length = arity
  | none => children.length ≤ 1

namespace Graph

/-- Both ends agree on every edge, and every vertex has the edges that its kind demands. -/
structure Consistent (graph : Graph) : Prop where
  mirrored : ∀ source target,
    (graph.children source).count target = (graph.parents target).count source
  fits : ∀ {id vertex}, graph.vertex? id = some vertex → vertex.kind.Fits vertex.children

/-- The root is a vertex and reaches every other. -/
def Rooted (graph : Graph) : Prop :=
  ∃ root, graph.root = some root ∧ graph.contains root = true ∧
    ∀ id, graph.contains id = true → graph.edges.Reaches root id

/-- Every variable that occurs is declared. -/
def Declared (graph : Graph) : Prop :=
  ∀ var ∈ graph.usedVariables, var.index < graph.vars.size

/-- The graph is valid and declares its variables. -/
structure WellFormed (graph : Graph) : Prop where
  consistent : graph.Consistent
  rooted : graph.Rooted
  declared : graph.Declared

variable {graph : Graph}

@[simp]
theorem vertex?_setRoot (graph : Graph) (root : Option VertexId) (id : VertexId) :
    ({ graph with root := root } : Graph).vertex? id = graph.vertex? id := rfl

theorem children_eq {id : VertexId} {vertex : Vertex} (found : graph.vertex? id = some vertex) :
    graph.children id = vertex.children := by
  simp [children, found]

theorem parents_eq {id : VertexId} {vertex : Vertex} (found : graph.vertex? id = some vertex) :
    graph.parents id = vertex.parents := by
  simp [parents, found]

theorem vertex_eq_ok_iff {id : VertexId} {vertex : Vertex} :
    graph.vertex id = .ok vertex ↔ graph.vertex? id = some vertex := by
  unfold Graph.vertex
  cases graph.vertex? id <;> simp

theorem requireAll_eq_ok_iff {alive : VertexId → Bool} {ids : List VertexId} :
    requireAll alive ids = .ok () ↔ ∀ id ∈ ids, alive id = true := by
  unfold requireAll
  cases missing : ids.find? (!alive ·) with
  | none => simpa using missing
  | some id =>
      have member := List.mem_of_find?_eq_some missing
      have dead := List.find?_some missing
      simp only [reduceCtorEq, false_iff, not_forall]
      exact ⟨id, member, by simpa using dead⟩

theorem index_lt_of_live {id : VertexId} (live : graph.contains id = true) :
    id.index < graph.slots.size := by
  by_contra outside
  simp [contains, vertex?_eq_none_of_size_le (Nat.le_of_not_lt outside)] at live

theorem live_of_mem_children {source target : VertexId} (edge : target ∈ graph.children source) :
    graph.contains source = true := by
  cases found : graph.vertex? source with
  | none => simp [children, found] at edge
  | some vertex => simp [contains, found]

theorem live_of_mem_parents {source target : VertexId} (edge : source ∈ graph.parents target) :
    graph.contains target = true := by
  cases found : graph.vertex? target with
  | none => simp [parents, found] at edge
  | some vertex => simp [contains, found]

namespace Consistent

variable {source target : VertexId} (consistent : graph.Consistent)

include consistent

theorem mem_children_iff : target ∈ graph.children source ↔ source ∈ graph.parents target := by
  rw [← List.count_pos_iff, ← List.count_pos_iff, consistent.mirrored]

theorem child_live (edge : target ∈ graph.children source) : graph.contains target = true :=
  live_of_mem_parents (consistent.mem_children_iff.mp edge)

theorem parent_live (edge : source ∈ graph.parents target) : graph.contains source = true :=
  live_of_mem_children (consistent.mem_children_iff.mpr edge)

theorem reaches_live {first last : VertexId} (path : graph.edges.Reaches first last)
    (live : graph.contains first = true) : graph.contains last = true := by
  induction path with
  | refl _ => exact live
  | step edge _ ih => exact ih (consistent.child_live edge)

theorem exit_of_children {id next : VertexId} {vertex : Vertex}
    (found : graph.vertex? id = some vertex) (leads : vertex.children = [next]) :
    vertex.kind.exit = .next := by
  have fits := consistent.fits found
  unfold Kind.Fits Kind.arity? at fits
  cases exit : vertex.kind.exit <;> simp_all [Exit.arity?]

theorem count_children_of_size_le (fresh : graph.slots.size ≤ target.index) :
    (graph.children source).count target = 0 := by
  rw [List.count_eq_zero]
  intro edge
  exact absurd (index_lt_of_live (consistent.child_live edge)) (Nat.not_lt.mpr fresh)

theorem count_parents_of_size_le (fresh : graph.slots.size ≤ source.index) :
    (graph.parents target).count source = 0 := by
  rw [List.count_eq_zero]
  intro edge
  exact absurd (index_lt_of_live (consistent.parent_live edge)) (Nat.not_lt.mpr fresh)

end Consistent

theorem arityDefect?_eq_none_iff {id : VertexId} {vertex : Vertex} :
    arityDefect? id vertex = none ↔ vertex.kind.Fits vertex.children := by
  unfold arityDefect? Kind.Fits
  cases vertex.kind.arity? <;> simp

/-- A vertex that is not there has no edges, so the lists of a valid graph agree on every pair of
names. -/
theorem Valid.mirrored (valid : graph.Valid) (source target : VertexId) :
    (graph.children source).count target = (graph.parents target).count source := by
  cases first : graph.vertex? source with
  | none =>
      have unlinked : source ∉ graph.parents target := by
        intro member
        cases second : graph.vertex? target with
        | none => simp [parents, second] at member
        | some vertex =>
            have live := valid.parents_live second (parents_eq second ▸ member)
            simp [contains, first] at live
      simp [children, first, List.count_eq_zero_of_not_mem unlinked]
  | some sourceVertex =>
      cases second : graph.vertex? target with
      | none =>
          have unlinked : target ∉ sourceVertex.children := by
            intro member
            have live := valid.children_live first member
            simp [contains, second] at live
          simp [children, parents, first, second, List.count_eq_zero_of_not_mem unlinked]
      | some targetVertex =>
          rw [children_eq first, parents_eq second]
          exact valid.edges_agree first second

theorem Valid.consistent (valid : graph.Valid) : graph.Consistent := by
  refine ⟨valid.mirrored, ?_⟩
  intro id vertex found
  unfold Kind.Fits
  cases arity : vertex.kind.arity? with
  | some count => exact valid.branches found arity
  | none => exact valid.straight found arity

theorem valid_iff : graph.Valid ↔ graph.Consistent ∧ graph.Rooted := by
  constructor
  · intro valid
    exact ⟨valid.consistent, valid.rooted⟩
  · rintro ⟨consistent, rooted⟩
    refine ⟨rooted, ?_, ?_, ?_, ?_, ?_⟩
    · intro id vertex child found member
      exact consistent.child_live (children_eq found ▸ member)
    · intro id vertex parent found member
      exact consistent.parent_live (parents_eq found ▸ member)
    · intro source target first second sourceFound targetFound
      simpa [children_eq sourceFound, parents_eq targetFound]
        using consistent.mirrored source target
    · intro id vertex arity found branches
      simpa [Kind.Fits, branches] using consistent.fits found
    · intro id vertex found straight
      simpa [Kind.Fits, straight] using consistent.fits found

theorem edgeDefect?_eq_none_iff {id neighbour : VertexId} {own : List VertexId}
    {opposite : Vertex → List VertexId} :
    graph.edgeDefect? id neighbour own opposite = none ↔
      ∃ vertex, graph.vertex? neighbour = some vertex ∧
        own.count neighbour = (opposite vertex).count id := by
  unfold edgeDefect?
  cases graph.vertex? neighbour <;> simp

theorem vertexDefect?_eq_none_iff {id : VertexId} {vertex : Vertex} :
    graph.vertexDefect? id vertex = none ↔
      (∀ child ∈ vertex.children,
        graph.edgeDefect? id child vertex.children Vertex.parents = none) ∧
      (∀ parent ∈ vertex.parents,
        graph.edgeDefect? id parent vertex.parents Vertex.children = none) ∧
      vertex.kind.Fits vertex.children := by
  simp [vertexDefect?, arityDefect?_eq_none_iff]

/-- A vertex breaks no rule if all its neighbours count the edges as it does. -/
theorem vertexDefect?_eq_none_of_consistent (consistent : graph.Consistent) {id : VertexId}
    {vertex : Vertex} (found : graph.vertex? id = some vertex) :
    graph.vertexDefect? id vertex = none := by
  refine vertexDefect?_eq_none_iff.mpr ⟨?_, ?_, consistent.fits found⟩
  · intro child member
    have edge : child ∈ graph.children id := children_eq found ▸ member
    rcases contains_iff.mp (consistent.child_live edge) with ⟨childVertex, childFound⟩
    refine edgeDefect?_eq_none_iff.mpr ⟨childVertex, childFound, ?_⟩
    simpa [children_eq found, parents_eq childFound] using consistent.mirrored id child
  · intro parent member
    have edge : parent ∈ graph.parents id := parents_eq found ▸ member
    rcases contains_iff.mp (consistent.parent_live edge) with ⟨parentVertex, parentFound⟩
    refine edgeDefect?_eq_none_iff.mpr ⟨parentVertex, parentFound, ?_⟩
    simpa [children_eq parentFound, parents_eq found] using (consistent.mirrored parent id).symm

theorem consistent_of_vertexDefect?
    (sound : ∀ {id vertex}, graph.vertex? id = some vertex → graph.vertexDefect? id vertex = none) :
    graph.Consistent := by
  have forth {source target : VertexId} (edge : target ∈ graph.children source) :
      (graph.children source).count target = (graph.parents target).count source := by
    rcases contains_iff.mp (live_of_mem_children edge) with ⟨vertex, found⟩
    rw [children_eq found] at edge ⊢
    have fine := (vertexDefect?_eq_none_iff.mp (sound found)).1 target edge
    rcases edgeDefect?_eq_none_iff.mp fine with ⟨targetVertex, targetFound, agree⟩
    rw [parents_eq targetFound, agree]
  have back {source target : VertexId} (edge : source ∈ graph.parents target) :
      (graph.parents target).count source = (graph.children source).count target := by
    rcases contains_iff.mp (live_of_mem_parents edge) with ⟨vertex, found⟩
    rw [parents_eq found] at edge ⊢
    have fine := (vertexDefect?_eq_none_iff.mp (sound found)).2.1 source edge
    rcases edgeDefect?_eq_none_iff.mp fine with ⟨sourceVertex, sourceFound, agree⟩
    rw [children_eq sourceFound, agree]
  refine ⟨?_, fun found => (vertexDefect?_eq_none_iff.mp (sound found)).2.2⟩
  intro source target
  by_cases edge : target ∈ graph.children source
  · exact forth edge
  · by_cases opposite : source ∈ graph.parents target
    · exact (back opposite).symm
    · rw [List.count_eq_zero_of_not_mem edge, List.count_eq_zero_of_not_mem opposite]

theorem mem_walk_iff {root id : VertexId} (start : graph.root = some root) :
    id ∈ graph.walk ↔ graph.edges.Reaches root id := by
  simp [walk, start, Digraph.mem_search_iff]

theorem rooted_of_defects (rootFine : graph.rootDefect? = none)
    (reachFine : graph.reachDefect? = none) : graph.Rooted := by
  cases start : graph.root with
  | none => simp [rootDefect?, start] at rootFine
  | some root =>
      have live : graph.contains root = true := by
        simpa [rootDefect?, start] using rootFine
      refine ⟨root, start, live, ?_⟩
      intro id idLive
      have allReached : graph.unreachable = [] := by simpa [reachDefect?] using reachFine
      rw [← mem_walk_iff start]
      by_contra missed
      have lost : id ∈ graph.unreachable := by
        simp [unreachable, mem_ids, idLive, missed]
      simp [allReached] at lost

theorem nodup_ids (graph : Graph) : graph.ids.Nodup := by
  apply List.Nodup.filter
  apply List.Nodup.map _ List.nodup_range
  intro first second same
  simpa using same

/-- Whatever the root reaches by some edge has a predecessor. -/
theorem Consistent.eq_root_of_no_parents (consistent : graph.Consistent) {root id : VertexId}
    (path : graph.edges.Reaches root id) (orphan : graph.parents id = []) : id = root := by
  have ends : ∀ {first last : VertexId}, graph.edges.Reaches first last →
      last = first ∨ ∃ before, last ∈ graph.children before := by
    intro first last path
    induction path with
    | refl _ => exact .inl rfl
    | step edge _ ih =>
        rcases ih with same | before
        · exact .inr ⟨_, same ▸ edge⟩
        · exact .inr before
  rcases ends path with same | ⟨before, edge⟩
  · exact same
  · have member := consistent.mem_children_iff.mp edge
    simp [orphan] at member

theorem orphanDefect?_eq_none (consistent : graph.Consistent) (rooted : graph.Rooted) :
    graph.orphanDefect? = none := by
  rcases rooted with ⟨root, -, -, reached⟩
  have single : ∀ entry ∈ graph.vertices.filter (·.2.parents.isEmpty), entry.1 = root := by
    rintro ⟨id, vertex⟩ member
    simp only [List.mem_filter, mem_vertices, List.isEmpty_iff] at member
    refine consistent.eq_root_of_no_parents (reached id (contains_iff.mpr ⟨vertex, member.1⟩)) ?_
    rw [parents_eq member.1, member.2]
  have distinct : ((graph.vertices.filter (·.2.parents.isEmpty)).map Prod.fst).Nodup := by
    refine List.Nodup.sublist (List.filter_sublist.map _) ?_
    have fromIds : graph.vertices.map Prod.fst = graph.ids := by
      unfold vertices
      rw [List.map_filterMap]
      conv_rhs => rw [← List.filterMap_some (l := graph.ids)]
      apply List.filterMap_congr
      intro id member
      rcases contains_iff.mp (mem_ids.mp member) with ⟨vertex, found⟩
      simp [found]
    rw [fromIds]
    exact graph.nodup_ids
  unfold orphanDefect?
  split
  · rename_i first _ second _ rest shape
    rw [shape] at single distinct
    have firstRoot : first = root := single _ List.mem_cons_self
    have secondRoot : second = root := single _ (List.mem_cons_of_mem _ List.mem_cons_self)
    simp [firstRoot.trans secondRoot.symm] at distinct
  · rfl

theorem unreachable_eq_nil (rooted : graph.Rooted) : graph.unreachable = [] := by
  rcases rooted with ⟨root, start, -, reached⟩
  simp only [unreachable, List.filter_eq_nil_iff, mem_ids, decide_eq_true_eq, not_not]
  intro id live
  exact (mem_walk_iff start).mpr (reached id live)

/-- Without the search for a second vertex that has no predecessor, the check finds a fault in just
the graphs that are not valid. -/
theorem valid_iff_defects :
    graph.Valid ↔
      graph.rootDefect? = none ∧
        (∀ id vertex, graph.vertex? id = some vertex → graph.vertexDefect? id vertex = none) ∧
          graph.reachDefect? = none := by
  rw [valid_iff]
  constructor
  · rintro ⟨consistent, root, start, live, reached⟩
    refine ⟨?_, fun id vertex found => vertexDefect?_eq_none_of_consistent consistent found, ?_⟩
    · simp [rootDefect?, start, live]
    · simp [reachDefect?, unreachable_eq_nil ⟨root, start, live, reached⟩]
  · rintro ⟨rootFine, verticesFine, reachFine⟩
    exact ⟨consistent_of_vertexDefect? (verticesFine _ _), rooted_of_defects rootFine reachFine⟩

/-- The check accepts exactly the valid graphs. -/
theorem validate_eq_ok_iff : graph.validate = .ok () ↔ graph.Valid := by
  have accepts : graph.validate = .ok () ↔ graph.defect? = none := by
    unfold validate
    cases graph.defect? <;> simp
  have parts : graph.defect? = none ↔ graph.Valid ∧ graph.orphanDefect? = none := by
    simp [defect?, mem_vertices, valid_iff_defects, and_assoc]
  rw [accepts, parts, and_iff_left_iff_imp, valid_iff]
  rintro ⟨consistent, rooted⟩
  exact orphanDefect?_eq_none consistent rooted

section MultipleRoots

variable {id first second : VertexId}

theorem edgeDefect?_ne_multipleRoots {neighbour : VertexId} {own : List VertexId}
    {opposite : Vertex → List VertexId} :
    graph.edgeDefect? id neighbour own opposite ≠ some (.multipleRoots first second) := by
  unfold edgeDefect?
  split
  · simp
  · split_ifs <;> simp

theorem vertexDefect?_ne_multipleRoots {vertex : Vertex} :
    graph.vertexDefect? id vertex ≠ some (.multipleRoots first second) := by
  intro fails
  simp only [vertexDefect?, Option.orElse_eq_orElse, Option.orElse_eq_or,
    Option.or_eq_some_iff] at fails
  rcases fails with byChild | ⟨-, byParent | ⟨-, byArity⟩⟩
  · rcases List.exists_of_findSome?_eq_some byChild with ⟨child, -, fails⟩
    exact edgeDefect?_ne_multipleRoots fails
  · rcases List.exists_of_findSome?_eq_some byParent with ⟨parent, -, fails⟩
    exact edgeDefect?_ne_multipleRoots fails
  · unfold arityDefect? at byArity
    cases arity : vertex.kind.arity? <;> simp [arity] at byArity

/-- The search for a second vertex without predecessors comes last, and by then there is none. -/
theorem defect?_ne_multipleRoots : graph.defect? ≠ some (.multipleRoots first second) := by
  intro fails
  simp only [defect?, Option.orElse_eq_orElse, Option.orElse_eq_or, Option.or_eq_some_iff] at fails
  rcases fails with atRoot | ⟨rootFine, atVertex | ⟨verticesFine, atReach | ⟨reachFine, atOrphan⟩⟩⟩
  · unfold rootDefect? at atRoot
    cases start : graph.root <;> simp [start] at atRoot
  · rcases List.exists_of_findSome?_eq_some atVertex with ⟨entry, -, fails⟩
    exact vertexDefect?_ne_multipleRoots fails
  · simp [reachDefect?] at atReach
  · have fine : ∀ id vertex, graph.vertex? id = some vertex →
        graph.vertexDefect? id vertex = none := by
      simpa [mem_vertices] using verticesFine
    rcases valid_iff.mp (valid_iff_defects.mpr ⟨rootFine, fine, reachFine⟩) with
      ⟨consistent, rooted⟩
    simp [orphanDefect?_eq_none consistent rooted] at atOrphan

end MultipleRoots

/-- The check decides the rules of a graph. It accepts a graph just if the graph obeys all of them,
and it never complains about a second vertex without predecessors, since in a valid graph there is
no such vertex but the root. -/
theorem validate_decides (graph : Graph) :
    (graph.validate = .ok () ↔ graph.Valid) ∧
      (∀ first second, graph.validate ≠ .error (.multipleRoots first second)) ∧
      (graph.Valid → ∀ {id vertex}, graph.vertex? id = some vertex → vertex.parents = [] →
        graph.root = some id) := by
  refine ⟨validate_eq_ok_iff, fun first second => ?_, fun valid id vertex found orphan => ?_⟩
  · unfold validate
    split
    · simp
    · rename_i error fails
      rintro ⟨rfl⟩
      exact defect?_ne_multipleRoots fails
  · rcases valid_iff.mp valid with ⟨consistent, root, start, -, reached⟩
    have path := reached id (contains_iff.mpr ⟨vertex, found⟩)
    rw [start, consistent.eq_root_of_no_parents path (by rw [parents_eq found, orphan])]

theorem wellFormed_of_validate (valid : graph.validate = .ok ()) (declared : graph.Declared) :
    graph.WellFormed := by
  rcases valid_iff.mp (validate_eq_ok_iff.mp valid) with ⟨consistent, rooted⟩
  exact ⟨consistent, rooted, declared⟩

theorem WellFormed.validate (wellFormed : graph.WellFormed) : graph.validate = .ok () :=
  validate_eq_ok_iff.mpr (valid_iff.mpr ⟨wellFormed.consistent, wellFormed.rooted⟩)

/-- A graph is declared if the variables of each of its vertices are. -/
theorem declared_iff :
    graph.Declared ↔
      ∀ id vertex, graph.vertex? id = some vertex →
        ∀ var ∈ vertex.kind.vars, var.index < graph.vars.size := by
  simp only [Declared, usedVariables, kinds, List.mem_mergeSort, List.mem_eraseDups,
    List.mem_flatMap, List.mem_map, Prod.exists, mem_vertices]
  constructor
  · intro declared id vertex found var member
    exact declared var ⟨vertex.kind, ⟨id, vertex, found, rfl⟩, member⟩
  · rintro declared var ⟨kind, ⟨id, vertex, found, rfl⟩, member⟩
    exact declared id vertex found var member

end Graph

end StackFlow
