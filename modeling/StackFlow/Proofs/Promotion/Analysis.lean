import Mathlib
import StackFlow.Proofs.Promotion.Visits

/-!
# What the analysis guarantees

A value has a variable if something pushes it and it is not tainted. Taint spreads
along bonds, so the values that an op binds together are tainted all at once. What
makes a change of the program impossible taints the values that are involved, and
the lemmas below read that off: where two visits of a vertex differ, neither of the
two values has a variable.
-/

namespace StackFlow.Promotion

variable {facts : Facts} {base : Nat}

theorem one_lt_count {stack : Stack} {value : Value} {first second : Nat} (apart : first ≠ second)
    (found : stack[first]? = some value) (otherFound : stack[second]? = some value) :
    1 < stack.count value := by
  induction stack generalizing first second with
  | nil => simp at found
  | cons head stack rest =>
      rcases first with _ | first <;> rcases second with _ | second
      · exact absurd rfl apart
      · have same : head = value := by simpa using found
        rw [List.getElem?_cons_succ] at otherFound
        have below := List.count_pos_iff.mpr (List.mem_of_getElem? otherFound)
        rw [same, List.count_cons_self]
        omega
      · have same : head = value := by simpa using otherFound
        rw [List.getElem?_cons_succ] at found
        have below := List.count_pos_iff.mpr (List.mem_of_getElem? found)
        rw [same, List.count_cons_self]
        omega
      · have below := rest (by omega) found otherFound
        rw [List.count_cons]
        omega

/-- Stacks of one height agree if no value has a variable at places where they differ. -/
theorem map_var?_eq_of_differences {assignment : Assignment} {first second : List Value}
    (height : first.length = second.length)
    (differ : ∀ value ∈ differences first second, assignment.var? value = none) :
    first.map assignment.var? = second.map assignment.var? := by
  induction first generalizing second with
  | nil => rw [List.length_eq_zero_iff.mp height.symm]
  | cons value first rest =>
      rcases List.exists_cons_of_length_eq_add_one height.symm with ⟨other, second, rfl⟩
      have others : first.map assignment.var? = second.map assignment.var? := by
        refine rest (by simpa using height) fun value member => differ value ?_
        rcases List.mem_flatMap.mp member with ⟨pair, listed, inside⟩
        rcases List.mem_filter.mp listed with ⟨zipped, unequal⟩
        exact List.mem_flatMap.mpr
          ⟨pair, List.mem_filter.mpr ⟨List.mem_cons_of_mem _ zipped, unequal⟩, inside⟩
      by_cases same : value = other
      · rw [List.map_cons, List.map_cons, same, others]
      · have member : ∀ one ∈ [value, other],
            one ∈ differences (value :: first) (other :: second) := by
          intro one inside
          refine List.mem_flatMap.mpr
            ⟨(value, other), List.mem_filter.mpr ⟨List.mem_cons_self .., ?_⟩, inside⟩
          simpa using same
        rw [List.map_cons, List.map_cons, others, differ value (member value (by simp)),
          differ other (member other (by simp))]

theorem agree_of_map_var?_eq {assignment : Assignment} {first second : Stack}
    (same : first.map assignment.var? = second.map assignment.var?) :
    Agree assignment first second := by
  intro place
  have atPlace := congrArg (·[place]?) same
  simp only [List.getElem?_map] at atPlace
  simp only [valueAt, List.getD_eq_getElem?_getD]
  cases found : first[place]? <;> cases otherFound : second[place]? <;> simp_all

namespace Facts

theorem mem_uses {use : Use} :
    use ∈ facts.uses ↔ ∃ visit ∈ facts.visits, use ∈ visit.uses facts.graph := by
  simp [uses]

theorem mem_promoted {value : Value} :
    value ∈ facts.promoted ↔ value ∈ facts.written ∧ value ∉ facts.tainted := by
  simp [promoted]

theorem mem_tainted {value : Value} :
    value ∈ facts.tainted ↔ ∃ seed ∈ facts.seeds, facts.bonds.Reaches seed value := by
  simp [tainted, Digraph.mem_search_iff]

theorem tainted_of_seed {value : Value} (seed : value ∈ facts.seeds) : value ∈ facts.tainted :=
  mem_tainted.mpr ⟨value, seed, .refl value⟩

/-- Values that are bound together are tainted together. -/
theorem tainted_of_bound {use : Use} (member : use ∈ facts.uses) {value other : Value}
    (bound : value ∈ use.bound) (otherBound : other ∈ use.bound) (tainted : value ∈ facts.tainted) :
    other ∈ facts.tainted := by
  rcases mem_tainted.mp tainted with ⟨seed, isSeed, path⟩
  refine mem_tainted.mpr ⟨seed, isSeed, path.tail ?_⟩
  have group : use.bound ∈ facts.groups := by
    rw [groups, List.mem_eraseDups]
    exact List.mem_map_of_mem member
  exact List.mem_flatten.mpr ⟨use.bound, List.mem_filter.mpr ⟨group, by simpa using bound⟩,
    otherBound⟩

theorem from_of_mem_uses {visit : Visit} {use : Use} (member : use ∈ visit.uses facts.graph) :
    ∃ stack, use.From stack := by
  rcases exists_vertex_of_mem_uses member with ⟨vertex, found⟩
  rw [uses_eq found] at member
  rcases List.getElem?_of_mem member with ⟨place, present⟩
  rcases form_ofKind present with ⟨op, before, -, rfl⟩ | ⟨-, before, rfl⟩
  · exact ⟨before, ofOp_from ..⟩
  · exact ⟨before, ofExit_from ..⟩

theorem written_of_pushes {use : Use} (member : use ∈ facts.uses) {value : Value}
    (pushes : use.Pushes value) : value ∈ facts.written := by
  simp only [written, List.mem_eraseDups, List.mem_map, List.mem_filter, List.mem_flatMap]
  exact ⟨(value, .write), ⟨⟨use, member, pushes.2⟩, rfl⟩, rfl⟩

theorem underflow_tainted (facts : Facts) : .underflow ∈ facts.tainted :=
  tainted_of_seed (List.mem_cons_self ..)

/-- Every pushed value that is not tainted has a variable. -/
theorem promoted_of_pushed {value : Value} (pushed : Pushed facts.graph facts.visits value)
    (untainted : value ∉ facts.tainted) : value ∈ facts.promoted := by
  rcases pushed with rfl | ⟨visit, member, use, inUses, pushes⟩
  · exact absurd facts.underflow_tainted untainted
  · exact mem_promoted.mpr ⟨written_of_pushes (mem_uses.mpr ⟨visit, member, inUses⟩) pushes,
      untainted⟩

theorem var?_eq_some_iff {value : Value} {var : VarId} :
    (facts.assignment base).var? value = some var ↔
      ∃ index, facts.promoted.idxOf? value = some index ∧ var = ⟨base + index⟩ := by
  simp only [assignment, Option.map_eq_some_iff]
  exact exists_congr fun _ => and_congr_right fun _ => eq_comm

theorem var?_eq_none_iff {value : Value} :
    (facts.assignment base).var? value = none ↔ value ∉ facts.promoted := by
  simp only [assignment, Option.map_eq_none_iff, List.idxOf?_eq_none_iff]

theorem var?_of_tainted {value : Value} (tainted : value ∈ facts.tainted) :
    (facts.assignment base).var? value = none :=
  var?_eq_none_iff.mpr fun promoted => (mem_promoted.mp promoted).2 tainted

theorem var?_of_seed {value : Value} (seed : value ∈ facts.seeds) :
    (facts.assignment base).var? value = none :=
  var?_of_tainted (tainted_of_seed seed)

theorem value_eq_of_var? {value other : Value} {var : VarId}
    (found : (facts.assignment base).var? value = some var)
    (otherFound : (facts.assignment base).var? other = some var) : value = other := by
  rcases var?_eq_some_iff.mp found with ⟨index, place, rfl⟩
  rcases var?_eq_some_iff.mp otherFound with ⟨otherIndex, otherPlace, same⟩
  have sameIndex : otherIndex = index := by
    rw [VarId.mk.injEq] at same
    omega
  subst sameIndex
  rcases List.idxOf?_eq_some_iff.mp place with ⟨_, atPlace, -⟩
  rcases List.idxOf?_eq_some_iff.mp otherPlace with ⟨_, atOther, -⟩
  exact atPlace.symm.trans atOther

theorem index_lt_of_var? {value : Value} {var : VarId}
    (found : (facts.assignment base).var? value = some var) :
    var.index < base + facts.promoted.length := by
  rcases var?_eq_some_iff.mp found with ⟨index, place, rfl⟩
  exact Nat.add_lt_add_left (List.idxOf?_eq_some_iff.mp place).1 _

theorem assignment_fresh (facts : Facts) (base : Nat) : (facts.assignment base).Fresh base where
  underflow := var?_of_tainted facts.underflow_tainted
  base_le := by
    intro value var found
    rcases var?_eq_some_iff.mp found with ⟨index, -, rfl⟩
    exact Nat.le_add_right _ _

theorem getElem?_of_var? {stack : Stack} {place : Nat} {var : VarId}
    (found : (facts.assignment base).var? (valueAt stack place) = some var) :
    stack[place]? = some (valueAt stack place) := by
  cases present : stack[place]? with
  | none =>
      have outside : valueAt stack place = .underflow := by
        simp [valueAt, List.getD_eq_getElem?_getD, present]
      rw [outside, (facts.assignment_fresh base).underflow] at found
      cases found
  | some value => simp [valueAt, List.getD_eq_getElem?_getD, present]

/-- No op leaves a value with a variable twice on the stack. -/
theorem distinct_after {use : Use} (member : use ∈ facts.uses) :
    Distinct (facts.assignment base) use.after := by
  intro first second var found otherFound
  have same := value_eq_of_var? found otherFound
  by_contra apart
  have twice : valueAt use.after first ∈ repeated use.after := by
    have present := getElem?_of_var? found
    refine List.mem_filter.mpr ⟨List.mem_of_getElem? present, ?_⟩
    simpa using one_lt_count apart present (same ▸ getElem?_of_var? otherFound)
  have seed : valueAt use.after first ∈ facts.seeds := by
    simp only [seeds, List.mem_cons, List.mem_append, List.mem_flatMap]
    exact .inr (.inl (.inr ⟨use, member, twice⟩))
  rw [var?_of_seed seed] at found
  cases found

/-- An op moves all of the values that it binds or none. -/
theorem allOrNone_bound (explored : Explored facts.graph facts.visits) {use : Use}
    (member : use ∈ facts.uses) : AllOrNone (facts.assignment base) use.bound := by
  by_cases clashes : ∃ value ∈ use.bound, value ∈ facts.tainted
  · rcases clashes with ⟨value, bound, tainted⟩
    exact .inl fun other otherBound =>
      var?_of_tainted (tainted_of_bound member bound otherBound tainted)
  · refine .inr fun value bound => ?_
    have untainted : value ∉ facts.tainted := fun tainted => clashes ⟨value, bound, tainted⟩
    rcases mem_uses.mp member with ⟨visit, visited, inUses⟩
    rcases from_of_mem_uses inUses with ⟨_, comes⟩
    have pushed : Pushed facts.graph facts.visits value := by
      rcases comes.bound value bound with input | pushes
      · exact (pushed_along visited (explored.pushed visit visited)).1 use inUses value (.inl input)
      · exact .inr ⟨visit, visited, use, inUses, pushes⟩
    rw [Option.isSome_iff_ne_none]
    exact fun unassigned => var?_eq_none_iff.mp unassigned (promoted_of_pushed pushed untainted)

/-- A value with a variable is pushed on some visit. -/
theorem exists_pushes_of_var? (explored : Explored facts.graph facts.visits) {value : Value}
    {var : VarId} (found : (facts.assignment base).var? value = some var) :
    ∃ visit ∈ facts.visits, ∃ use ∈ visit.uses facts.graph, use.Pushes value := by
  have promoted : value ∈ facts.promoted := by
    by_contra absent
    rw [var?_eq_none_iff.mpr absent] at found
    cases found
  rcases mem_promoted.mp promoted with ⟨written, untainted⟩
  simp only [Facts.written, List.mem_eraseDups, List.mem_map, List.mem_filter,
    List.mem_flatMap] at written
  rcases written with ⟨⟨_, access⟩, ⟨⟨use, member, touched⟩, writes⟩, rfl⟩
  rcases mem_uses.mp member with ⟨visit, visited, inUses⟩
  rcases from_of_mem_uses inUses with ⟨_, comes⟩
  rcases comes.touches touched writes with input | pushes
  · rcases (pushed_along visited (explored.pushed visit visited)).1 use inUses _ (.inl input) with
      rfl | pushed
    · exact absurd facts.underflow_tainted untainted
    · exact pushed
  · exact ⟨visit, visited, use, inUses, pushes⟩

theorem unpushed (explored : Explored facts.graph facts.visits) {id : VertexId} {vertex : Vertex}
    (found : facts.graph.vertex? id = some vertex) :
    Unpushed (facts.assignment base) id 0 vertex.kind.ops := by
  intro place op present silent
  by_contra hasVar
  rcases Option.ne_none_iff_exists'.mp hasVar with ⟨var, hasVar⟩
  rcases exists_pushes_of_var? explored hasVar with ⟨visit, -, use, inUses, pushes⟩
  rcases exists_vertex_of_mem_uses inUses with ⟨other, otherFound⟩
  rw [uses_eq otherFound] at inUses
  rcases pushes_ofKind inUses pushes with ⟨index, pushing, atIndex, named, produces⟩
  rw [Value.pushed.injEq, Site.mk.injEq, Nat.zero_add] at named
  rw [← named.1, found, Option.some.injEq] at otherFound
  rw [← otherFound, ← named.2, present, Option.some.injEq] at atIndex
  exact Op.pushes_ne_zero produces (atIndex ▸ silent)

/-- The use of a site on its first visit is the recorded one. -/
theorem use?_of_record {id : VertexId} {vertex : Vertex} {first : Visit}
    (found : facts.graph.vertex? id = some vertex)
    (isFirst : facts.visits.find? (·.vertex = id) = some first) :
    facts.record id = ofKind id vertex.kind first.stack ∧
      ∀ use ∈ ofKind id vertex.kind first.stack, facts.use? use.site = some use := by
  have sameVertex : first.vertex = id := by simpa using List.find?_some isFirst
  have record : facts.record id = ofKind id vertex.kind first.stack := by
    rw [Facts.record, isFirst]
    simp only [Visit.uses, sameVertex, found]
  refine ⟨record, fun use member => ?_⟩
  rcases List.getElem?_of_mem member with ⟨place, present⟩
  rw [site_ofKind present, use?, record, present]

/-- Every visit of a vertex finds the variables that the first one found. -/
theorem compatible_record {id : VertexId} {vertex : Vertex} {first visit : Visit}
    (found : facts.graph.vertex? id = some vertex)
    (isFirst : facts.visits.find? (·.vertex = id) = some first) (visited : visit ∈ facts.visits)
    (sameVertex : visit.vertex = id) :
    CompatibleAll (facts.assignment base) (ofKind id vertex.kind first.stack)
      (ofKind id vertex.kind visit.stack) := by
  intro place one other present otherPresent
  have uses : visit.uses facts.graph = ofKind id vertex.kind visit.stack := by
    simp only [Visit.uses, sameVertex, found]
  have clash : ∀ value ∈ one.clashes other, (facts.assignment base).var? value = none := by
    intro value inside
    apply var?_of_seed
    simp only [seeds, List.mem_cons, List.mem_append, List.mem_flatMap]
    refine .inr (.inl (.inl ⟨visit, visited, ?_⟩))
    rw [operandClashes, sameVertex, (use?_of_record found isFirst).1, uses]
    refine List.mem_flatMap.mpr ⟨(one, other), ?_, inside⟩
    exact List.mem_of_getElem? (List.getElem?_zip_eq_some.mpr ⟨present, otherPresent⟩)
  have heights : one.inputs.length = other.inputs.length ∧
      one.peeked.toList.length = other.peeked.toList.length := by
    rcases form_ofKind present with ⟨op, before, atPlace, rfl⟩ | ⟨atEnd, before, rfl⟩ <;>
      rcases form_ofKind otherPresent with ⟨otherOp, otherBefore, otherAtPlace, rfl⟩ |
        ⟨otherAtEnd, otherBefore, rfl⟩
    · obtain rfl := Option.some.inj (atPlace.symm.trans otherAtPlace)
      simp only [inputs_ofOp, length_topmost, peeked_ofOp, true_and]
      split <;> rfl
    · have bound := (List.getElem?_eq_some_iff.mp atPlace).1
      omega
    · have bound := (List.getElem?_eq_some_iff.mp otherAtPlace).1
      omega
    · simp only [ofExit]
      constructor
      · split <;> rfl
      · cases vertex.kind.exit with
        | tested test => by_cases reads : test.readsStack <;> simp [reads]
        | next | popped | random => rfl
  refine ⟨?_, ?_, distinct_after ?_⟩
  · exact map_var?_eq_of_differences heights.1 fun value inside =>
      clash value (List.mem_append_left _ inside)
  · have same := map_var?_eq_of_differences heights.2 fun value inside =>
        clash value (List.mem_append_right _ inside)
    cases peeked : one.peeked <;> cases otherPeeked : other.peeked <;> simp_all
  · exact mem_uses.mpr ⟨visit, visited, uses ▸ List.mem_of_getElem? otherPresent⟩

/-- Whatever a visit leads to is a visit of a stack that agrees. -/
theorem exists_visit_of_arrival (explored : Explored facts.graph facts.visits)
    {visit arrival : Visit} (visited : visit ∈ facts.visits)
    (leads : arrival ∈ visit.arrivals facts.graph) :
    ∃ next ∈ facts.visits, next.vertex = arrival.vertex ∧
      Agree (facts.assignment base) arrival.stack next.stack := by
  have seed : ∀ value ∈ facts.arrivalClashes arrival,
      (facts.assignment base).var? value = none := by
    intro value inside
    apply var?_of_seed
    simp only [seeds, List.mem_cons, List.mem_append, List.mem_flatMap]
    exact .inr (.inr ⟨arrival, ⟨visit, visited, leads⟩, inside⟩)
  cases known : (visitsOf facts.visits arrival.vertex).find?
    (·.stack.length = arrival.stack.length) with
  | some next =>
      simp only [arrivalClashes, known] at seed
      rcases List.mem_filter.mp (List.mem_of_find?_eq_some known) with ⟨member, sameVertex⟩
      have height : next.stack.length = arrival.stack.length := by simpa using List.find?_some known
      refine ⟨next, member, by simpa using sameVertex, agree_of_map_var?_eq ?_⟩
      exact (map_var?_eq_of_differences height seed).symm
  | none =>
      simp only [arrivalClashes, known] at seed
      rcases explored.arrives visit visited arrival leads with ⟨next, member, sameVertex⟩
      have stays : ∀ stack : Stack, (∀ value ∈ stack, (facts.assignment base).var? value = none) →
          ∀ place, (facts.assignment base).var? (valueAt stack place) = none := by
        intro stack unassigned place
        rcases valueAt_mem_or_underflow stack place with inside | below
        · exact unassigned _ inside
        · rw [below, (facts.assignment_fresh base).underflow]
      refine ⟨next, member, sameVertex, fun place => ?_⟩
      rw [stays arrival.stack (fun value inside => seed value (List.mem_append_right _ inside)),
        stays next.stack fun value inside => seed value (List.mem_append_left _ ?_)]
      refine List.mem_flatMap.mpr
        ⟨next, List.mem_filter.mpr ⟨member, by simpa using sameVertex⟩, inside⟩

end Facts

end StackFlow.Promotion
