import Mathlib
import StackFlow.Proofs.Behaviour.Lockstep
import StackFlow.Proofs.Promotion.Analysis

/-!
# Promotion keeps the behaviour

The program is run with a tag on every value of its stack. After the promotion it
takes the same path and shows the same, with the same grid, input and variables,
and its stack is the original one without the values whose tags were promoted.

Nothing in the analysis can make the promotion fail. What is recorded at a visit is
enough to change the vertex, and a vertex without a visit stays as it is. In a valid
graph every vertex is visited.
-/

namespace StackFlow

/-- A change of kinds that never fails is a map over the vertices. -/
theorem Graph.mapKinds_eq {graph : Graph} {change : VertexId → Kind → Except GraphError Kind}
    (fine : ∀ id vertex, graph.vertex? id = some vertex → ∃ new, change id vertex.kind = .ok new) :
    graph.mapKinds change = .ok (graph.mapVertices fun id vertex =>
      some { vertex with kind := (change id vertex.kind).toOption.getD vertex.kind }) := by
  dsimp only [mapKinds]
  split
  · rename_i error failure
    rcases List.exists_of_findSome?_eq_some failure with ⟨⟨id, vertex⟩, member, fails⟩
    rcases fine id vertex (mem_vertices.mp member) with ⟨new, changed⟩
    simp [changed] at fails
  · rfl

namespace Promotion

section Tags

variable {id : VertexId} {tags : Stack} {state : State}

theorem length_tagsAfterOp (site : Site) (op : Op) (tagged : tags.length = state.stack.length) :
    (tagsAfterOp site op tags).length = (op.run state).stack.length := by
  cases op <;>
    simp [tagsAfterOp, Op.run, Op.pops, Op.pushes, State.replace, State.assign, State.store,
      State.skipInput, tagged]

theorem length_tagsAfterOps (index : Nat) (ops : List Op)
    (tagged : tags.length = state.stack.length) :
    (tagsAfterOps id index ops tags).length = (state.run ops).stack.length := by
  induction ops generalizing index tags state with
  | nil => exact tagged
  | cons op ops rest => exact rest (index + 1) (length_tagsAfterOp ⟨id, index⟩ op tagged)

theorem length_tagsAfterKind (kind : Kind) (tagged : tags.length = state.stack.length) :
    (tagsAfterKind id kind tags).length = (kind.run state).stack.length := by
  have ops : (tagsAfterOps id 0 kind.ops tags).length = (state.run kind.ops).stack.length :=
    length_tagsAfterOps 0 kind.ops tagged
  rw [tagsAfterKind, Kind.run, Kind.popsTest]
  cases kind.exit <;> simp [Exit.run, State.replace, ops]

end Tags

/-- The tags of the stack at the end of a path. -/
def tagsAlong (graph : Graph) (path : Graph.Path) : Stack :=
  path.foldl (fun tags leg =>
    match graph.vertex? leg.1 with
    | some vertex => tagsAfterKind leg.1 vertex.kind tags
    | none => tags) []

theorem tagsAlong_append {graph : Graph} {id : VertexId} {vertex : Vertex}
    (found : graph.vertex? id = some vertex) (path : Graph.Path) (edge : Option Nat) :
    tagsAlong graph (path ++ [(id, edge)]) =
      tagsAfterKind id vertex.kind (tagsAlong graph path) := by
  simp [tagsAlong, found]

/-- A state after the promotion beside the state of the original program. The stack has lost the
promoted values; all else that the original program has is the same. -/
structure Mirrors (graph : Graph) (promoted : List Value) (path : Graph.Path) (state twin : State) :
    Prop where
  tagged : (tagsAlong graph path).length = state.stack.length
  stack : twin.stack = (((tagsAlong graph path).zip state.stack).filter (·.1 ∉ promoted)).map (·.2)
  vars : ∀ var, var.index < graph.vars.size → twin.vars var = state.vars var
  grid : twin.grid = state.grid
  input : twin.input = state.input

/-- Programs at the same point of a path, in states that mirror each other. -/
def mirroring (graph : Graph) (promoted : List Value) : Graph.Relation where
  running := fun path _ => Mirrors graph promoted path
  halted := Mirrors graph promoted

theorem Mirrors.refl {graph : Graph} {path : Graph.Path} {state : State}
    (tagged : (tagsAlong graph path).length = state.stack.length) :
    Mirrors graph [] path state state where
  tagged := tagged
  stack := by simp [List.map_snd_zip, tagged]
  vars := fun _ _ => rfl
  grid := rfl
  input := rfl

theorem Mirrors.of_split {facts : Facts} {path : Graph.Path} {entries : List (Value × Word)}
    {state twin : State}
    (split : Split (facts.assignment facts.graph.vars.size) facts.graph.vars.size entries
      state twin)
    (tags : Split.tags entries = tagsAlong facts.graph path) :
    Mirrors facts.graph facts.promoted path state twin where
  tagged := by rw [← tags, split.stack, List.length_map, List.length_map]
  stack := by
    have together : (tagsAlong facts.graph path).zip state.stack = entries := by
      rw [← tags, split.stack, List.zip_map', List.map_id']
    rw [together, split.kept]
    congr 1
    apply List.filter_congr
    intro entry _
    rw [Bool.eq_iff_iff]
    simp [Facts.var?_eq_none_iff]
  vars := split.vars
  grid := split.grid
  input := split.input

namespace Facts

variable {facts : Facts}

/-- The variables of the promoted values, after those of the program. -/
def choice (facts : Facts) : Assignment :=
  facts.assignment facts.graph.vars.size

/-- The vertex in the place of one whose values may have moved to variables. -/
def change (facts : Facts) (id : VertexId) (kind : Kind) : Kind :=
  (facts.choice.kind id kind).toOption.getD kind

/-- At each point of a path there is a visit whose stack agrees with the tags, and the states are
split. -/
def following (facts : Facts) : Graph.Relation where
  running := fun path id state twin => ∃ visit ∈ facts.visits, visit.vertex = id ∧
    ∃ entries, Split.tags entries = tagsAlong facts.graph path ∧
      Agree facts.choice (Split.tags entries) visit.stack ∧
      Split facts.choice facts.graph.vars.size entries state twin
  halted := fun path state twin => ∃ entries, Split.tags entries = tagsAlong facts.graph path ∧
    Split facts.choice facts.graph.vars.size entries state twin

theorem mirroring_of_following {path : Graph.Path} {snapshot twin : Snapshot}
    (follows : facts.following.Holds path snapshot twin) :
    (mirroring facts.graph facts.promoted).Holds path snapshot twin := by
  rcases snapshot with ⟨id, state⟩ | state <;> rcases twin with ⟨other, twin⟩ | twin
  · rcases follows with ⟨same, _, _, _, entries, tags, _, split⟩
    exact ⟨same, .of_split split tags⟩
  · exact follows
  · exact follows
  · rcases follows with ⟨entries, tags, split⟩
    exact .of_split split tags

theorem exists_first {id : VertexId} (visited : ∃ visit ∈ facts.visits, visit.vertex = id) :
    ∃ first, facts.visits.find? (·.vertex = id) = some first := by
  rcases visited with ⟨visit, member, here⟩
  rw [← Option.isSome_iff_exists, List.find?_isSome]
  exact ⟨visit, member, by simpa using here⟩

theorem mem_uses_of_first {id : VertexId} {vertex : Vertex} {first : Visit}
    (found : facts.graph.vertex? id = some vertex)
    (isFirst : facts.visits.find? (·.vertex = id) = some first) :
    ∀ use ∈ ofKind id vertex.kind first.stack, use ∈ facts.uses := by
  intro use inside
  have sameVertex : first.vertex = id := by simpa using List.find?_some isFirst
  refine mem_uses.mpr ⟨first, List.mem_of_find?_eq_some isFirst, ?_⟩
  simpa only [Visit.uses, sameVertex, found] using inside

/-- Every vertex that is visited can be changed, and the changed vertex keeps in step. -/
theorem change_spec (explored : Explored facts.graph facts.visits) {id : VertexId} {vertex : Vertex}
    (found : facts.graph.vertex? id = some vertex)
    (visited : ∃ visit ∈ facts.visits, visit.vertex = id) :
    facts.choice.kind id vertex.kind = .ok (facts.change id vertex.kind) ∧
      (facts.change id vertex.kind).arity? = vertex.kind.arity? ∧
      (∀ var ∈ (facts.change id vertex.kind).vars,
        var ∈ vertex.kind.vars ∨ ∃ value, facts.choice.var? value = some var) ∧
      ∀ {entries state twin}, (∀ var ∈ vertex.kind.vars, var.index < facts.graph.vars.size) →
        ∀ visit ∈ facts.visits, visit.vertex = id →
        Agree facts.choice (Split.tags entries) visit.stack →
        Split facts.choice facts.graph.vars.size entries state twin →
        vertex.kind.events state = (facts.change id vertex.kind).events twin ∧
          (∀ drawn, (facts.change id vertex.kind).edge drawn twin = vertex.kind.edge drawn state) ∧
          ∃ after, Split.tags after = tagsAfterKind id vertex.kind (Split.tags entries) ∧
            Agree facts.choice (Split.tags after)
              (stackAfter visit.stack (visit.uses facts.graph)) ∧
            Split facts.choice facts.graph.vars.size after (vertex.kind.run state)
              ((facts.change id vertex.kind).run twin) := by
  rcases exists_first visited with ⟨first, isFirst⟩
  have recorded : ∀ use ∈ ofKind id vertex.kind first.stack, Recorded facts.choice use :=
    fun use inside => ⟨(use?_of_record found isFirst).2 use inside,
      allOrNone_bound explored (mem_uses_of_first found isFirst use inside)⟩
  rcases kind_promotes (facts.assignment_fresh facts.graph.vars.size) recorded
    (unpushed explored found) with ⟨new, changed, arity, vars, run⟩
  have changeEq : facts.change id vertex.kind = new := by
    rw [change, show facts.choice.kind id vertex.kind = .ok new from changed]
    rfl
  rw [changeEq]
  refine ⟨changed, arity, vars, ?_⟩
  intro entries state twin own visit visited here agree split
  have uses : visit.uses facts.graph = ofKind id vertex.kind visit.stack := by
    simp only [Visit.uses, here, found]
  rw [uses]
  exact run own agree (compatible_record found isFirst visited here) split

theorem lockstep (declared : facts.graph.Declared) (explored : Explored facts.graph facts.visits) :
    facts.graph.Lockstep facts.change facts.following := by
  rintro path id vertex state twin found ⟨visit, visited, here, entries, tags, agree, split⟩
  have own := Graph.declared_iff.mp declared id vertex found
  rcases (change_spec explored found ⟨visit, visited, here⟩).2.2.2 own visit visited here agree
    split with ⟨events, edges, after, afterTags, afterAgree, afterSplit⟩
  have along : ∀ edge, Split.tags after = tagsAlong facts.graph (path ++ [(id, edge)]) := by
    intro edge
    rw [tagsAlong_append found, ← tags, afterTags]
  refine ⟨events, edges, ⟨after, along none, afterSplit⟩, fun edge next child => ?_⟩
  have leads : ⟨next, stackAfter visit.stack (visit.uses facts.graph)⟩ ∈
      visit.arrivals facts.graph := by
    refine List.mem_map.mpr ⟨next, ?_, rfl⟩
    rwa [here, Graph.children_eq found]
  rcases exists_visit_of_arrival explored visited leads with
    ⟨arrived, inVisits, atNext, arrivedAgree⟩
  refine ⟨arrived, inVisits, atNext, after, along (some edge), ?_, afterSplit⟩
  exact fun place => (afterAgree place).trans (arrivedAgree place)

theorem use?_of_unvisited {id : VertexId} (unvisited : ¬∃ visit ∈ facts.visits, visit.vertex = id)
    (index : Nat) : facts.use? ⟨id, index⟩ = none := by
  have absent : facts.visits.find? (·.vertex = id) = none := by
    simpa [List.find?_eq_none] using unvisited
  simp [use?, record, absent]

/-- Every vertex can be changed, whether it is visited or not. -/
theorem change_spec_of_live (explored : Explored facts.graph facts.visits) {id : VertexId}
    {vertex : Vertex} (found : facts.graph.vertex? id = some vertex) :
    facts.choice.kind id vertex.kind = .ok (facts.change id vertex.kind) ∧
      (facts.change id vertex.kind).arity? = vertex.kind.arity? ∧
      ∀ var ∈ (facts.change id vertex.kind).vars,
        var ∈ vertex.kind.vars ∨ ∃ value, facts.choice.var? value = some var := by
  by_cases visited : ∃ visit ∈ facts.visits, visit.vertex = id
  · rcases change_spec explored found visited with ⟨changed, arity, vars, -⟩
    exact ⟨changed, arity, vars⟩
  · have same : facts.choice.kind id vertex.kind = .ok vertex.kind :=
      Assignment.kind_of_unknown (use?_of_unvisited visited) vertex.kind
    have changeEq : facts.change id vertex.kind = vertex.kind := by
      rw [change, same]
      rfl
    rw [changeEq]
    exact ⟨same, rfl, fun _ member => .inl member⟩

/-- The root reaches every vertex, and whatever a visit leads to is visited. -/
theorem exists_visit_of_live (explored : Explored facts.graph facts.visits)
    (rooted : facts.graph.Rooted) {root : VertexId} (start : facts.graph.root = some root)
    (begins : ⟨root, []⟩ ∈ facts.visits) {id : VertexId} (live : facts.graph.contains id = true) :
    ∃ visit ∈ facts.visits, visit.vertex = id := by
  rcases rooted with ⟨other, otherStart, -, reached⟩
  obtain rfl := Option.some.inj (start.symm.trans otherStart)
  have path := reached id live
  have first : ∃ visit ∈ facts.visits, visit.vertex = root := ⟨_, begins, rfl⟩
  clear live start otherStart begins reached
  induction path with
  | refl _ => exact first
  | step edge _ rest =>
      rcases first with ⟨visit, visited, rfl⟩
      exact rest (explored.arrives visit visited ⟨_, _⟩ (List.mem_map.mpr ⟨_, edge, rfl⟩))

/-- The graph with the promoted values in variables. -/
def promotion (facts : Facts) : Graph :=
  (facts.graph.declare (facts.promoted.map fun _ => ⟨0, true⟩)).mapVertices fun id vertex =>
    some { vertex with kind := facts.change id vertex.kind }

section Promotion

variable (explored : Explored facts.graph facts.visits)
include explored

theorem promotion_rekinded : facts.graph.Rekinded facts.promotion facts.change where
  root := rfl
  view := by
    intro id
    rw [promotion, Graph.vertex?_mapVertices, Option.map_eq_bind]
    rfl
  arity := fun found => (change_spec_of_live explored found).2.1

theorem promotion_wellFormed (wellFormed : facts.graph.WellFormed) :
    facts.promotion.WellFormed := by
  have rekinded := promotion_rekinded explored
  refine ⟨rekinded.consistent wellFormed.consistent, rekinded.rooted wellFormed.rooted, ?_⟩
  rw [Graph.declared_iff]
  intro id twin twinFound var member
  rcases rekinded.exists_vertex twinFound with ⟨vertex, found, rfl⟩
  have size : facts.promotion.vars.size = facts.graph.vars.size + facts.promoted.length := by
    simp [promotion, Graph.mapVertices, Graph.declare]
  rw [size]
  rcases (change_spec_of_live explored found).2.2 var member with old | ⟨value, hasVar⟩
  · exact Nat.lt_add_right _ (Graph.declared_iff.mp wellFormed.declared id vertex found var old)
  · exact index_lt_of_var? hasVar

theorem mapKinds_choice :
    (facts.graph.declare (facts.promoted.map fun _ => ⟨0, true⟩)).mapKinds facts.choice.kind =
      .ok facts.promotion := by
  refine Graph.mapKinds_eq fun id vertex found => ?_
  exact ⟨_, (change_spec_of_live explored found).1⟩

end Promotion

/-- At the start the stack is empty and nothing is in a variable. -/
theorem following_initialState (facts : Facts) {root : VertexId}
    (begins : ⟨root, []⟩ ∈ facts.visits) (input : Nat → Word) :
    facts.following.running [] root (facts.graph.initialState input)
        (facts.promotion.initialState input) := by
  refine ⟨_, begins, rfl, [], rfl, fun _ => rfl, rfl, rfl, by simp, ?_, rfl, rfl⟩
  intro var own
  simp [Graph.initialState, Graph.initialValue, promotion, Graph.mapVertices, Graph.declare,
    Array.getElem?_append_left own]

end Facts

/-- The other program runs along the same paths as the original, in states that mirror each
other. -/
def MirrorsAlong (graph other : Graph) (promoted : List Value) : Prop :=
  ∀ input path events,
    (∀ snapshot, graph.Travels input path events snapshot →
      ∃ twin, other.Travels input path events twin ∧
        (mirroring graph promoted).Holds path snapshot twin) ∧
    ∀ twin, other.Travels input path events twin →
      ∃ snapshot, graph.Travels input path events snapshot ∧
        (mirroring graph promoted).Holds path snapshot twin

/-- The tags of a stack are as many as its values. -/
theorem mirroring_refl {graph : Graph} {input : Nat → Word} {path : Graph.Path}
    {events : List Event} {snapshot : Snapshot}
    (travels : graph.Travels input path events snapshot) :
    (mirroring graph []).Holds path snapshot snapshot := by
  induction travels with
  | start _ => exact ⟨rfl, .refl rfl⟩
  | move drawn _ found _ before =>
      refine ⟨rfl, .refl ?_⟩
      rw [tagsAlong_append found]
      exact length_tagsAfterKind _ before.2.tagged
  | halt _ found _ before =>
      apply Mirrors.refl
      rw [tagsAlong_append found]
      exact length_tagsAfterKind _ before.2.tagged

theorem MirrorsAlong.refl (graph : Graph) : MirrorsAlong graph graph [] := fun _ _ _ =>
  ⟨fun snapshot travels => ⟨snapshot, travels, mirroring_refl travels⟩,
    fun twin travels => ⟨twin, travels, mirroring_refl travels⟩⟩

theorem Facts.mirrorsAlong_promotion {facts : Facts} {root : VertexId}
    (rekinded : facts.graph.Rekinded facts.promotion facts.change)
    (lockstep : facts.graph.Lockstep facts.change facts.following)
    (start : facts.graph.root = some root) (begins : ⟨root, []⟩ ∈ facts.visits) :
    MirrorsAlong facts.graph facts.promotion facts.promoted := by
  intro input path events
  have starts : ∀ other, facts.graph.root = some other →
      facts.following.running [] other (facts.graph.initialState input)
        (facts.promotion.initialState input) := by
    intro other isRoot
    obtain rfl := Option.some.inj (start.symm.trans isRoot)
    exact facts.following_initialState begins input
  constructor
  · intro snapshot travels
    rcases rekinded.travels lockstep starts travels with ⟨twin, twinTravels, follows⟩
    exact ⟨twin, twinTravels, mirroring_of_following follows⟩
  · intro twin travels
    rcases rekinded.travels_back lockstep starts travels with ⟨snapshot, original, follows⟩
    exact ⟨snapshot, original, mirroring_of_following follows⟩

theorem Facts.behavesLike_promotion {facts : Facts} {root : VertexId}
    (wellFormed : facts.graph.WellFormed)
    (rekinded : facts.graph.Rekinded facts.promotion facts.change)
    (lockstep : facts.graph.Lockstep facts.change facts.following)
    (start : facts.graph.root = some root) (begins : ⟨root, []⟩ ∈ facts.visits) :
    facts.graph.BehavesLike facts.promotion := by
  refine rekinded.behavesLike wellFormed.consistent wellFormed.rooted lockstep ?_
  intro input other isRoot
  obtain rfl := Option.some.inj (start.symm.trans isRoot)
  exact facts.following_initialState begins input

end Promotion

namespace Graph

open Promotion

variable {graph : Graph}

theorem promoteValues_of_visits {limit : Nat} {root : VertexId} {facts : Facts}
    (start : facts.graph.root = some root)
    (explores : Promotion.visits facts.graph limit root = .ok facts.visits)
    (changes : (facts.graph.declare (facts.promoted.map fun _ => ⟨0, true⟩)).mapKinds
      facts.choice.kind = .ok facts.promotion) :
    facts.graph.promoteValues limit =
      .ok (if facts.promoted = [] then facts.graph else facts.promotion,
        facts.promoted.length) := by
  simp only [promoteValues, start, explores]
  change (if facts.promoted.isEmpty then _ else _) = _
  by_cases unpromoted : facts.promoted = []
  · simp [unpromoted]
  · have promotes : ¬facts.promoted.isEmpty = true := by simpa using unpromoted
    rw [if_neg promotes, if_neg unpromoted]
    change (do
      let changed ← (facts.graph.declare (facts.promoted.map fun _ => ⟨0, true⟩)).mapKinds
        facts.choice.kind
      return (changed, facts.promoted.length)) = _
    rw [changes]
    rfl

/-- What the pass knows when its visits are done, and what it then makes of the graph. -/
structure PromotedBy (graph : Graph) (limit : Nat) (root : VertexId) (facts : Facts) : Prop where
  graph_eq : facts.graph = graph
  explores : Promotion.visits graph limit root = .ok facts.visits
  begins : ⟨root, []⟩ ∈ facts.visits
  arrives : ∀ visit ∈ facts.visits, Arrival graph root visit
  explored : Explored facts.graph facts.visits
  result : graph.promoteValues limit =
    .ok (if facts.promoted = [] then graph else facts.promotion, facts.promoted.length)

/-- Where the root reaches no missing vertex the pass succeeds. -/
theorem exists_promotedBy {root : VertexId} (start : graph.root = some root)
    (live : ∀ id, graph.edges.Reaches root id → graph.contains id = true) (limit : Nat) :
    ∃ facts, graph.PromotedBy limit root facts := by
  rcases visits_spec live limit with ⟨visits, explores, begins, arrives, explored⟩
  obtain ⟨facts, isFacts⟩ : ∃ facts : Facts, facts = ⟨graph, visits⟩ := ⟨_, rfl⟩
  obtain ⟨rfl, rfl⟩ : facts.graph = graph ∧ facts.visits = visits := by simp [isFacts]
  have result := promoteValues_of_visits start explores (Facts.mapKinds_choice explored)
  exact ⟨facts, rfl, explores, begins, arrives, explored, result⟩

/-- On a valid graph the pass succeeds, and it changes the graph by what it knows from its
visits. -/
theorem exists_promotion (valid : graph.Valid) (limit : Nat) :
    ∃ facts : Facts, ∃ root, graph.PromotedBy limit root facts ∧ graph.root = some root ∧
      ∀ {id}, facts.graph.contains id = true → ∃ visit ∈ facts.visits, visit.vertex = id := by
  rcases valid_iff.mp valid with ⟨consistent, root, start, live, reached⟩
  rcases exists_promotedBy start (fun id path => consistent.reaches_live path live) limit with
    ⟨facts, promotes⟩
  obtain rfl := promotes.graph_eq
  refine ⟨facts, root, promotes, start, ?_⟩
  exact Facts.exists_visit_of_live promotes.explored ⟨root, start, live, reached⟩ start
    promotes.begins

/-- What the promotion of values makes of a valid graph that declares its variables. -/
theorem promoteValues_spec (wellFormed : graph.WellFormed) (limit : Nat) :
    ∃ root visits other, graph.root = some root ∧ Promotion.visits graph limit root = .ok visits ∧
      graph.promoteValues limit = .ok (other, (⟨graph, visits⟩ : Facts).promoted.length) ∧
      other.WellFormed ∧ graph.BehavesLike other ∧
      MirrorsAlong graph other (⟨graph, visits⟩ : Facts).promoted := by
  rcases exists_promotion (valid_iff.mpr ⟨wellFormed.consistent, wellFormed.rooted⟩) limit with
    ⟨facts, root, ⟨rfl, explores, begins, -, explored, result⟩, start, -⟩
  refine ⟨root, facts.visits, _, start, explores, result, ?_⟩
  split
  · rename_i none
    refine ⟨wellFormed, .refl _, ?_⟩
    rw [show (⟨facts.graph, facts.visits⟩ : Facts).promoted = [] from none]
    exact .refl _
  · have rekinded := Facts.promotion_rekinded explored
    have lockstep : facts.graph.Lockstep facts.change facts.following :=
      Facts.lockstep wellFormed.declared explored
    exact ⟨Facts.promotion_wellFormed explored wellFormed,
      Facts.behavesLike_promotion wellFormed rekinded lockstep start begins,
      Facts.mirrorsAlong_promotion rekinded lockstep start begins⟩

/-- Moving values to variables is sound. On a valid graph that declares its variables the pass
succeeds for every limit, and the new program takes the same paths and shows the same as the
original. At each point of a path both have the same grid, the same input left and the same values
in the variables of the original, and the stack is the original one without the promoted values. -/
theorem promoteValues_sound (valid : graph.validate = .ok ()) (declared : graph.Declared)
    (limit : Nat) :
    ∃ root visits other, graph.root = some root ∧ Promotion.visits graph limit root = .ok visits ∧
      graph.promoteValues limit = .ok (other, (⟨graph, visits⟩ : Facts).promoted.length) ∧
      other.validate = .ok () ∧ graph.BehavesLike other ∧
      MirrorsAlong graph other (⟨graph, visits⟩ : Facts).promoted := by
  rcases promoteValues_spec (wellFormed_of_validate valid declared) limit with
    ⟨root, visits, other, start, explores, result, wellFormed, behaves, mirrors⟩
  exact ⟨root, visits, other, start, explores, result, wellFormed.validate, behaves, mirrors⟩

/-- Prints the number one again and again. Both the number and its copy can leave the stack. -/
def printingLoop : Graph where
  slots := #[
    some { kind := .single (.push (.const 1)), children := [⟨1⟩], parents := [⟨3⟩] },
    some { kind := .single .dup, children := [⟨2⟩], parents := [⟨0⟩] },
    some { kind := .single (.output .number), children := [⟨3⟩], parents := [⟨1⟩] },
    some { kind := .decision, children := [⟨0⟩, ⟨4⟩], parents := [⟨2⟩] },
    some { kind := .single .nop, parents := [⟨3⟩] }]
  root := some ⟨0⟩
  grid := .blank 0 0
  vars := #[]

theorem promoteValues_sound_printingLoop :
    printingLoop.validate = .ok () ∧ printingLoop.Declared ∧
      ∃ root visits other, printingLoop.root = some root ∧
        Promotion.visits printingLoop 4 root = .ok visits ∧
        printingLoop.promoteValues 4 =
          .ok (other, (⟨printingLoop, visits⟩ : Facts).promoted.length) ∧
        other.validate = .ok () ∧ printingLoop.BehavesLike other ∧
        MirrorsAlong printingLoop other (⟨printingLoop, visits⟩ : Facts).promoted := by
  have valid : printingLoop.validate = .ok () := by decide +kernel
  have declared : printingLoop.Declared := by
    unfold Declared
    decide +kernel
  exact ⟨valid, declared, promoteValues_sound valid declared 4⟩

end Graph

end StackFlow
