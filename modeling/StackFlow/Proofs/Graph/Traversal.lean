import Mathlib
import StackFlow.Proofs.Graph.Tree

/-!
# The order of a walk

A breadth-first search visits near nodes first. At every moment it stands between two
distances: the nodes that wait are those it still has to look at one distance from the
roots, followed by what it has found one edge behind. When the first of these two groups
runs out, the second takes its place. A node that is visited lies at the distance of its
group, since all nearer ones have been visited by then.

Of the other traversals only the answer counts: a vertex lies on a cycle if a search from
its children finds it.
-/

namespace StackFlow

namespace Digraph

variable {α : Type}

/-- A path of the given number of edges leads from one node to another. -/
inductive Path (graph : Digraph α) : Nat → α → α → Prop where
  | refl (node : α) : Path graph 0 node node
  | tail {length : Nat} {first second last : α} :
      Path graph length first second → last ∈ graph.next second → Path graph (length + 1) first last

section Path

variable {graph : Digraph α} {first second last : α} {length : Nat}

theorem Path.reaches (path : graph.Path length first last) : graph.Reaches first last := by
  induction path with
  | refl node => exact .refl node
  | tail _ edge reached => exact reached.tail edge

theorem Path.head (edge : second ∈ graph.next first) (path : graph.Path length second last) :
    graph.Path (length + 1) first last := by
  induction path with
  | refl node => exact .tail (.refl first) edge
  | tail _ onward before => exact .tail (before edge) onward

theorem reaches_iff_path : graph.Reaches first last ↔ ∃ length, graph.Path length first last := by
  constructor
  · intro path
    induction path with
    | refl node => exact ⟨0, .refl node⟩
    | step edge _ rest =>
        rcases rest with ⟨length, path⟩
        exact ⟨length + 1, path.head edge⟩
  · rintro ⟨length, path⟩
    exact path.reaches

theorem moves_iff_path : graph.Moves first last ↔ ∃ length, graph.Path (length + 1) first last := by
  constructor
  · rintro ⟨second, edge, path⟩
    rcases reaches_iff_path.mp path with ⟨length, path⟩
    exact ⟨length, path.head edge⟩
  · rintro ⟨length, path⟩
    cases path with
    | tail before edge => exact before.reaches.moves ⟨last, edge, .refl last⟩

end Path

/-- A path of the given number of edges leads from one of the roots to the node. -/
def AtLevel (graph : Digraph α) (roots : List α) (length : Nat) (node : α) : Prop :=
  ∃ root ∈ roots, graph.Path length root node

/-- The number of edges on a shortest path from one of the roots to the node. -/
noncomputable def distance (graph : Digraph α) (roots : List α) (node : α) : Nat :=
  sInf {length | graph.AtLevel roots length node}

section Distance

variable {graph : Digraph α} {roots : List α} {length : Nat} {node target : α}

theorem AtLevel.next (atLevel : graph.AtLevel roots length node) (edge : target ∈ graph.next node) :
    graph.AtLevel roots (length + 1) target := by
  rcases atLevel with ⟨root, isRoot, path⟩
  exact ⟨root, isRoot, path.tail edge⟩

theorem AtLevel.exists_before (atLevel : graph.AtLevel roots (length + 1) target) :
    ∃ node, graph.AtLevel roots length node ∧ target ∈ graph.next node := by
  rcases atLevel with ⟨root, isRoot, path⟩
  cases path with
  | tail before edge => exact ⟨_, ⟨root, isRoot, before⟩, edge⟩

theorem distance_le (atLevel : graph.AtLevel roots length node) :
    graph.distance roots node ≤ length :=
  Nat.sInf_le atLevel

theorem AtLevel.at_distance (atLevel : graph.AtLevel roots length node) :
    graph.AtLevel roots (graph.distance roots node) node :=
  Nat.sInf_mem (s := {length | graph.AtLevel roots length node}) ⟨length, atLevel⟩

end Distance

/-- The invariant of a breadth-first search that has come to a level. The nodes of this level that
are not yet visited wait in `near`, those of the next level that have been found so far in `far`. -/
structure Layered (graph : Digraph α) (roots : List α) (level : Nat) (done near far : List α) :
    Prop where
  ordered :
    done.Pairwise fun later earlier => graph.distance roots earlier ≤ graph.distance roots later
  passed : ∀ node ∈ done, graph.distance roots node ≤ level
  nearLevel : ∀ node ∈ near, graph.AtLevel roots level node
  farLevel : ∀ node ∈ far, graph.AtLevel roots (level + 1) node
  inner : ∀ length < level, ∀ node, graph.AtLevel roots length node → node ∈ done
  outer : ∀ node, graph.AtLevel roots level node → node ∈ done ∨ node ∈ near
  closed : ∀ node ∈ done, ∀ target ∈ graph.next node, target ∈ done ∨ target ∈ near ∨ target ∈ far

namespace Layered

variable {graph : Digraph α} {roots done near far : List α} {level : Nat} {node : α}

theorem start (graph : Digraph α) (roots : List α) : graph.Layered roots 0 [] roots [] where
  ordered := .nil
  passed := by simp
  nearLevel := fun node isRoot => ⟨node, isRoot, .refl node⟩
  farLevel := by simp
  inner := by omega
  outer := by
    rintro node ⟨root, isRoot, path⟩
    cases path
    exact .inr isRoot
  closed := by simp

/-- Once the level is done the search turns to the next one. -/
theorem turn (layered : graph.Layered roots level done [] far) :
    graph.Layered roots (level + 1) done far [] := by
  have complete : ∀ node, graph.AtLevel roots level node → node ∈ done := by
    intro node atLevel
    simpa using layered.outer node atLevel
  have closed : ∀ node ∈ done, ∀ target ∈ graph.next node, target ∈ done ∨ target ∈ far := by
    intro node visited target edge
    simpa using layered.closed node visited target edge
  refine ⟨layered.ordered, ?_, layered.farLevel, by simp, ?_, ?_, ?_⟩
  · intro node visited
    exact (layered.passed node visited).trans (Nat.le_succ level)
  · intro length below node atLevel
    rcases Nat.lt_succ_iff_lt_or_eq.mp below with lower | rfl
    · exact layered.inner length lower node atLevel
    · exact complete node atLevel
  · intro target atLevel
    rcases atLevel.exists_before with ⟨node, before, edge⟩
    exact closed node (complete node before) target edge
  · intro node visited target edge
    exact (closed node visited target edge).imp_right .inl

/-- A node that was visited before is passed over. -/
theorem skip (layered : graph.Layered roots level done (node :: near) far) (visited : node ∈ done) :
    graph.Layered roots level done near far := by
  have waits : ∀ other ∈ node :: near, other ∈ done ∨ other ∈ near := by
    intro other member
    rcases List.mem_cons.mp member with rfl | member
    · exact .inl visited
    · exact .inr member
  refine ⟨layered.ordered, layered.passed, ?_, layered.farLevel, layered.inner, ?_, ?_⟩
  · intro other member
    exact layered.nearLevel other (List.mem_cons_of_mem _ member)
  · intro other atLevel
    rcases layered.outer other atLevel with known | member
    · exact .inl known
    · exact waits other member
  · intro source known target edge
    rcases layered.closed source known target edge with known | member | found
    · exact .inl known
    · exact (waits target member).imp_right .inl
    · exact .inr (.inr found)

theorem distance_eq (layered : graph.Layered roots level done (node :: near) far)
    (fresh : node ∉ done) : graph.distance roots node = level := by
  have atLevel := layered.nearLevel node List.mem_cons_self
  apply le_antisymm (distance_le atLevel)
  -- A nearer node would have been visited with its own level.
  by_contra nearer
  apply fresh
  exact layered.inner _ (not_le.mp nearer) node atLevel.at_distance

theorem visit (layered : graph.Layered roots level done (node :: near) far) (fresh : node ∉ done) :
    graph.Layered roots level (node :: done) near (far ++ graph.next node) := by
  have distance := layered.distance_eq fresh
  have waits : ∀ other ∈ node :: near, other ∈ node :: done ∨ other ∈ near := by
    intro other member
    rcases List.mem_cons.mp member with rfl | member
    · exact .inl List.mem_cons_self
    · exact .inr member
  refine ⟨?_, ?_, ?_, ?_, ?_, ?_, ?_⟩
  · apply List.Pairwise.cons _ layered.ordered
    intro earlier visited
    rw [distance]
    exact layered.passed earlier visited
  · intro other visited
    rcases List.mem_cons.mp visited with rfl | visited
    · exact distance.le
    · exact layered.passed other visited
  · intro other member
    exact layered.nearLevel other (List.mem_cons_of_mem _ member)
  · intro other member
    rcases List.mem_append.mp member with found | edge
    · exact layered.farLevel other found
    · exact (layered.nearLevel node List.mem_cons_self).next edge
  · intro length below other atLevel
    apply List.mem_cons_of_mem
    exact layered.inner length below other atLevel
  · intro other atLevel
    rcases layered.outer other atLevel with visited | member
    · exact .inl (List.mem_cons_of_mem _ visited)
    · exact waits other member
  · intro source visited target edge
    rcases List.mem_cons.mp visited with rfl | visited
    · exact .inr (.inr (List.mem_append_right _ edge))
    · rcases layered.closed source visited target edge with known | member | found
      · exact .inl (List.mem_cons_of_mem _ known)
      · exact (waits target member).imp_right .inl
      · exact .inr (.inr (List.mem_append_left _ found))

theorem exists_head {waiting : List α} (layered : graph.Layered roots level done near far)
    (split : node :: waiting = near ++ far) :
    ∃ level rest far, graph.Layered roots level done (node :: rest) far ∧
      waiting = rest ++ far := by
  cases near with
  | nil =>
      -- Nothing of the level is left, so the node is the first of the next one.
      rw [List.nil_append] at split
      subst split
      exact ⟨level + 1, waiting, [], layered.turn, (List.append_nil waiting).symm⟩
  | cons first rest =>
      rcases List.cons.inj split with ⟨rfl, rfl⟩
      exact ⟨level, rest, far, layered, rfl⟩

end Layered

variable [DecidableEq α]

theorem ordered_visit {graph : Digraph α} {roots done waiting near far : List α} {level : Nat}
    (layered : graph.Layered roots level done near far) (split : waiting = near ++ far) :
    (graph.visit .breadthFirst done waiting).Pairwise
      fun earlier later => graph.distance roots earlier ≤ graph.distance roots later := by
  -- The split of the waiting nodes into two levels changes on the way, so it is general in the
  -- induction.
  fun_induction visit graph .breadthFirst done waiting generalizing level near far with
  | case1 done => exact List.pairwise_reverse.mpr layered.ordered
  | case2 done node waiting visited rest =>
      rcases layered.exists_head split with ⟨level, near, far, layered, split⟩
      exact rest (layered.skip visited) split
  | case3 done node waiting fresh rest =>
      rcases layered.exists_head split with ⟨level, near, far, layered, rfl⟩
      exact rest (layered.visit fresh) (List.append_assoc near far _)

/-- A breadth-first search lists no node before a nearer one. -/
theorem ordered_search (graph : Digraph α) (roots : List α) :
    (graph.search .breadthFirst roots).Pairwise
      fun earlier later => graph.distance roots earlier ≤ graph.distance roots later :=
  ordered_visit (Layered.start graph roots) (List.append_nil roots).symm

end Digraph

namespace Graph

/-- The number of edges on a shortest path from the root to the vertex. -/
noncomputable def distance (graph : Graph) (id : VertexId) : Nat :=
  graph.edges.distance graph.root.toList id

/-- A walk lists just what the root reaches, each handle once and none before a nearer one. A vertex
is on a cycle just if a path of at least one edge leads from it to itself. -/
theorem traversals_exact (graph : Graph) :
    graph.walk.Nodup ∧
      (∀ id, id ∈ graph.walk ↔ ∃ root ∈ graph.root, ∃ length, graph.edges.Path length root id) ∧
      graph.walk.Pairwise (fun earlier later => graph.distance earlier ≤ graph.distance later) ∧
      ∀ id, graph.onCycle id = true ↔ ∃ length, graph.edges.Path (length + 1) id id := by
  refine ⟨graph.edges.nodup_search .breadthFirst _, ?_, graph.edges.ordered_search _, ?_⟩
  · intro id
    simp only [walk, Digraph.mem_search_iff, Digraph.reaches_iff_path, Option.mem_toList,
      Option.mem_def]
  · intro id
    exact onCycle_iff.trans Digraph.moves_iff_path

end Graph

end StackFlow
