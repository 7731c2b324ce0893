import Mathlib
import StackFlow.Proofs.Promotion.Rewriting

/-!
# Variables of promoted values are assigned before they are read

A variable that the promotion declares belongs to one value, and a value is pushed
by one op. That op becomes the only assignment of the variable.

Along a path the tags of the stack name ops that were passed. What reads one of the
new variables has found a tag with that variable on the stack, so the op that is
named by the tag was run before.
-/

namespace StackFlow

open Promotion

/-- The op takes a word into the variable without the stack. -/
def Op.Sets (op : Op) (var : VarId) : Prop :=
  (∃ value, op = .assign var value) ∨ ∃ format, op = .inputVar var format

theorem Op.sets_or_varSet {op : Op} {var : VarId} (target : op.target? = some var) :
    op.Sets var ∨ op = .varSet var := by
  cases op <;> simp_all [Op.target?, Op.Sets]

theorem Op.Sets.target? {op : Op} {var : VarId} (sets : op.Sets var) : op.target? = some var := by
  rcases sets with ⟨value, rfl⟩ | ⟨format, rfl⟩ <;> rfl

/-- After the vertices of the path the op of the site was run before the place is reached. -/
def Promotion.Site.RunsBefore (site : Site) (path : List VertexId) (place : Site) : Prop :=
  site.vertex ∈ path ∨ site.vertex = place.vertex ∧ site.index < place.index

namespace Graph

/-- The op of the site assigns the variable. -/
def AssignsAt (graph : Graph) (var : VarId) (site : Site) : Prop :=
  ∃ vertex op, graph.vertex? site.vertex = some vertex ∧ vertex.kind.ops[site.index]? = some op ∧
    op.target? = some var

/-- The op of the site, or the choice of the exit, reads the variable. -/
inductive ReadsAt (graph : Graph) (var : VarId) : Site → Prop where
  | op {id : VertexId} {vertex : Vertex} {index : Nat} {op : Op} : graph.vertex? id = some vertex →
      vertex.kind.ops[index]? = some op → var ∈ op.reads → ReadsAt graph var ⟨id, index⟩
  | exit {id : VertexId} {vertex : Vertex} {test : Expr} : graph.vertex? id = some vertex →
      vertex.kind.test? = some test → var ∈ test.vars →
        ReadsAt graph var ⟨id, vertex.kind.ops.length⟩

/-- The site has the only assignment of the variable, and on every path from the root it is run
before the variable is read. -/
structure Definite (graph : Graph) (var : VarId) (site : Site) : Prop where
  only : ∀ place, graph.AssignsAt var place ↔ place = site
  direct : ∃ vertex op, graph.vertex? site.vertex = some vertex ∧
    vertex.kind.ops[site.index]? = some op ∧ op.Sets var
  first : ∀ {path place depth}, graph.Enters path place.vertex depth → graph.ReadsAt var place →
    site.RunsBefore path place

theorem Declared.not_mem_vars {graph : Graph} {id : VertexId} {vertex : Vertex} {var : VarId}
    (declared : graph.Declared) (isNew : graph.vars.size ≤ var.index)
    (found : graph.vertex? id = some vertex) : var ∉ vertex.kind.vars := by
  intro member
  exact absurd (declared_iff.mp declared id vertex found var member) (Nat.not_lt.mpr isNew)

end Graph

namespace Promotion

variable {assignment : Assignment} {value : Value} {var : VarId} {site : Site} {stack : Stack}

/-- A use sees what a compatible one does, as far as variables go. -/
theorem Compatible.sees {first second : Use} (compatible : Compatible assignment first second)
    (sees : first.Sees value) :
    ∃ other, second.Sees other ∧ assignment.var? other = assignment.var? value := by
  rcases sees with input | onTop
  · have listed : assignment.var? value ∈ second.inputs.map assignment.var? :=
      compatible.inputs ▸ List.mem_map_of_mem input
    rcases List.mem_map.mp listed with ⟨other, inside, same⟩
    exact ⟨other, .inl inside, same⟩
  · have peeked := compatible.peeked
    rw [onTop, Option.map_some, eq_comm, Option.map_eq_some_iff] at peeked
    rcases peeked with ⟨other, seen, same⟩
    exact ⟨other, .inr seen, same⟩

/-- A variable that belongs to a value of a stack belongs to one of the tags that agree with it. -/
theorem Agree.exists_mem {tags : Stack} (agree : Agree assignment tags stack)
    (bottom : assignment.var? .underflow = none) {place : Nat}
    (hasVar : assignment.var? (valueAt stack place) = some var) :
    ∃ tag ∈ tags, assignment.var? tag = some var := by
  rw [← agree] at hasVar
  refine ⟨valueAt tags place, ?_, hasVar⟩
  apply (valueAt_mem_or_underflow tags place).resolve_right
  intro below
  rw [below, bottom] at hasVar
  cases hasVar

namespace Facts

variable {facts : Facts} {id : VertexId} {vertex : Vertex}

theorem choice_fresh (facts : Facts) : facts.choice.Fresh facts.graph.vars.size :=
  facts.assignment_fresh _

/-- Only what is pushed has a variable. -/
theorem exists_pushed_of_var? (hasVar : facts.choice.var? value = some var) :
    ∃ site, value = .pushed site := by
  cases value with
  | pushed site => exact ⟨site, rfl⟩
  | underflow =>
      rw [facts.choice_fresh.underflow] at hasVar
      cases hasVar

/-- Each of the variables that are declared belongs to a promoted value. -/
theorem exists_value_of_index (low : facts.graph.vars.size ≤ var.index)
    (high : var.index < facts.graph.vars.size + facts.promoted.length) :
    ∃ value, facts.choice.var? value = some var := by
  have inside : var.index - facts.graph.vars.size < facts.promoted.length := by omega
  have distinct : facts.promoted.Nodup := (nodup_eraseDups _).filter _
  refine ⟨facts.promoted.get ⟨_, inside⟩,
    var?_eq_some_iff.mpr ⟨_, List.idxOf?_eq_some_iff.mpr ⟨inside, rfl, ?_⟩, ?_⟩⟩
  · intro earlier before same
    exact before.ne (distinct.getElem_inj_iff.mp same)
  · rw [Nat.add_sub_cancel' low]

namespace Shadows

variable {path : List VertexId} {depth : Nat} {visit : Visit} {tags : Stack}
  (shadows : facts.Shadows path id depth visit tags)
include shadows

/-- What is found on the way through a vertex was pushed before. -/
theorem exists_site {ops : List Op} {spot : Nat}
    (hasVar : facts.choice.var?
      (valueAt (stackAfter visit.stack (ofOps id 0 ops visit.stack)) spot) = some var) :
    ∃ site, facts.choice.var? (.pushed site) = some var ∧
      site.RunsBefore path ⟨id, ops.length⟩ := by
  have agree : Agree facts.choice (tagsAfterOps id 0 ops tags) _ := shadows.agree.tagsAfterOps 0 ops
  rcases agree.exists_mem facts.choice_fresh.underflow hasVar with ⟨tag, tagged, tagHasVar⟩
  rcases exists_pushed_of_var? tagHasVar with ⟨site, rfl⟩
  refine ⟨site, tagHasVar, ?_⟩
  rcases pushed_of_mem_tagsAfterOps tagged with old | ⟨here, bound⟩
  · exact .inl (shadows.passed old)
  · exact .inr ⟨here, by simpa using bound⟩

variable {first : Visit} (found : facts.graph.vertex? id = some vertex)
  (isFirst : facts.visits.find? (·.vertex = id) = some first)
include found isFirst

theorem exists_site_of_op {place : Nat} {op new : Op} (present : vertex.kind.ops[place]? = some op)
    (changed : facts.choice.op ⟨id, place⟩ op = .ok new) (read : var ∈ new.reads) :
    var ∈ vertex.kind.vars ∨
      ∃ site, facts.choice.var? (.pushed site) = some var ∧ site.RunsBefore path ⟨id, place⟩ := by
  rcases (Rewritten.of_op (use?_of_op found isFirst present) changed).reads read with
    old | ⟨value, sees, hasVar⟩
  · exact .inl
      (Kind.mem_vars.mpr (.inl ⟨op, List.mem_of_getElem? present, Op.mem_vars_of_mem_reads old⟩))
  · have compatible :=
      (shadows.compatible found isFirst).kind.1 place (getElem?_ofOps 0 present first.stack)
        (getElem?_ofOps 0 present visit.stack)
    rw [Nat.zero_add] at compatible
    rcases compatible.sees sees with ⟨other, otherSees, same⟩
    rcases exists_valueAt_of_sees_ofOp otherSees with ⟨spot, rfl⟩
    have length : (vertex.kind.ops.take place).length = place :=
      List.length_take_of_le (List.getElem?_eq_some_iff.mp present).1.le
    exact .inr (length ▸ shadows.exists_site (same.trans hasVar))

theorem exists_site_of_exit {test : Expr}
    (tested : facts.choice.exit ⟨id, vertex.kind.ops.length⟩ vertex.kind.exit = .tested test)
    (read : var ∈ test.vars) :
    var ∈ vertex.kind.vars ∨
      ∃ site, facts.choice.var? (.pushed site) = some var ∧
        site.RunsBefore path ⟨id, vertex.kind.ops.length⟩ := by
  rcases Assignment.mem_vars_exit tested read with old | ⟨use, value, known, sees, hasVar⟩
  · exact .inl old
  · obtain rfl := Option.some.inj ((use?_of_exit found isFirst).symm.trans known)
    rcases (shadows.compatible found isFirst).kind.2.sees sees with ⟨other, otherSees, same⟩
    rcases exists_valueAt_of_sees_ofExit otherSees with ⟨spot, rfl⟩
    exact .inr (shadows.exists_site (same.trans hasVar))

end Shadows

section Sites

variable (explored : Explored facts.graph facts.visits)
include explored

/-- The op that pushes a promoted value becomes an assignment of the variable of that value. -/
theorem sets_of_var? (hasVar : facts.choice.var? (.pushed site) = some var) :
    ∃ vertex op, facts.promotion.vertex? site.vertex = some vertex ∧
      vertex.kind.ops[site.index]? = some op ∧ op.Sets var := by
  rcases exists_pushes_of_var? explored hasVar with ⟨visit, member, use, inUses, pushes⟩
  rcases exists_vertex_of_mem_uses inUses with ⟨vertex, found⟩
  rw [uses_eq found] at inUses
  rcases pushes_ofKind inUses pushes with ⟨place, op, present, named, produces⟩
  obtain rfl := Value.pushed.inj named
  rcases exists_new found explored present with ⟨new, newPresent, changed⟩
  rcases exists_first ⟨visit, member, rfl⟩ with ⟨first, isFirst⟩
  have rewritten := Rewritten.of_op (use?_of_op found isFirst present) changed
  have twinFound := (promotion_rekinded explored).view visit.vertex
  rw [found, Option.map_some] at twinFound
  refine ⟨_, new, twinFound, newPresent, ?_⟩
  have target := rewritten.target
  rw [if_pos produces, hasVar] at target
  apply (Op.sets_or_varSet target).resolve_right
  intro isVarSet
  -- An op that sets a variable from the stack was one before, and it pushes nothing.
  rw [← rewritten.plain var (.inl isVarSet), isVarSet] at produces
  cases produces

variable (declared : facts.graph.Declared) (isNew : facts.graph.vars.size ≤ var.index)
include declared isNew

/-- A changed op that assigns a new variable is the one that pushed the value of the variable. -/
theorem var?_of_assignsAt
    (visited : ∀ {id}, facts.graph.contains id = true → ∃ visit ∈ facts.visits, visit.vertex = id)
    (assigns : facts.promotion.AssignsAt var site) :
    facts.choice.var? (.pushed site) = some var := by
  rcases assigns with ⟨twin, new, twinFound, present, target⟩
  rcases (promotion_rekinded explored).exists_vertex twinFound with ⟨vertex, found, rfl⟩
  rcases exists_op found explored present with ⟨op, oldPresent, changed⟩
  rcases exists_first (visited (Graph.contains_iff.mpr ⟨vertex, found⟩)) with ⟨first, isFirst⟩
  have rewritten := Rewritten.of_op (use?_of_op found isFirst oldPresent) changed
  rw [rewritten.target] at target
  split at target
  · exact target
  · have old : var ∈ vertex.kind.vars :=
      Kind.mem_vars.mpr (.inl ⟨op, List.mem_of_getElem? oldPresent, Op.mem_vars_of_target? target⟩)
    exact absurd old (declared.not_mem_vars isNew found)

/-- What reads a new variable comes after the op that pushed the value of the variable. -/
theorem exists_site_of_readsAt {path : List VertexId} {place : Site} {depth : Nat} {visit : Visit}
    {tags : Stack} (shadows : facts.Shadows path place.vertex depth visit tags)
    (reads : facts.promotion.ReadsAt var place) :
    ∃ site, facts.choice.var? (.pushed site) = some var ∧ site.RunsBefore path place := by
  rcases exists_first ⟨visit, shadows.visited, shadows.here⟩ with ⟨first, isFirst⟩
  cases reads with
  | op twinFound present read =>
      rcases (promotion_rekinded explored).exists_vertex twinFound with ⟨vertex, found, rfl⟩
      rcases exists_op found explored present with ⟨op, oldPresent, changed⟩
      apply (shadows.exists_site_of_op found isFirst oldPresent changed read).resolve_left
      exact declared.not_mem_vars isNew found
  | exit twinFound tested read =>
      rcases (promotion_rekinded explored).exists_vertex twinFound with ⟨vertex, found, rfl⟩
      rcases Assignment.exists_ops (change_spec_of_live explored found).1 with ⟨body, -, -, exit⟩
      have isTested := Kind.test?_eq_some_iff.mp tested
      rw [length_ops_change found explored]
      apply (shadows.exists_site_of_exit found isFirst (exit ▸ isTested) read).resolve_left
      exact declared.not_mem_vars isNew found

/-- A variable of a promoted value is assigned where the value was pushed, and before it is read. -/
theorem definite_promotion {root : VertexId} (start : facts.graph.root = some root)
    (begins : ⟨root, []⟩ ∈ facts.visits)
    (visited : ∀ {id}, facts.graph.contains id = true → ∃ visit ∈ facts.visits, visit.vertex = id)
    (hasVar : facts.choice.var? (.pushed site) = some var) : facts.promotion.Definite var site where
  only := by
    intro place
    constructor
    · intro assigns
      have placeHasVar := var?_of_assignsAt explored declared isNew visited assigns
      exact Value.pushed.inj (value_eq_of_var? placeHasVar hasVar)
    · rintro rfl
      rcases sets_of_var? explored hasVar with ⟨vertex, op, found, present, sets⟩
      exact ⟨vertex, op, found, present, sets.target?⟩
  direct := sets_of_var? explored hasVar
  first := by
    intro path place depth entered reads
    rcases exists_shadows explored start begins (promotion_rekinded explored) entered with
      ⟨visit, tags, shadows⟩
    rcases exists_site_of_readsAt explored declared isNew shadows reads with
      ⟨other, otherHasVar, before⟩
    obtain rfl := Value.pushed.inj (value_eq_of_var? otherHasVar hasVar)
    exact before

end Sites

end Facts

end Promotion

namespace Graph

variable {graph : Graph}

/-- The pass appends a declaration with the initial value 0 for each value that it moves. Each of
the new variables is assigned by one op, and on every path from the root it is read only after that
op. -/
theorem promoteValues_definite (valid : graph.validate = .ok ()) (declared : graph.Declared)
    (limit : Nat) :
    ∃ other count, graph.promoteValues limit = .ok (other, count) ∧
      other.vars = graph.vars ++ Array.replicate count ⟨0, true⟩ ∧
      ∀ var, graph.vars.size ≤ var.index → var.index < graph.vars.size + count →
        ∃ site, other.Definite var site := by
  rcases exists_promotion (validate_eq_ok_iff.mp valid) limit with
    ⟨facts, root, ⟨rfl, -, begins, -, explored, result⟩, start, visited⟩
  refine ⟨_, _, result, ?_, ?_⟩
  · split
    · rename_i none
      simp [none]
    · simp [Facts.promotion, mapVertices, declare]
  · intro var low high
    split
    · rename_i none
      rw [none, List.length_nil] at high
      omega
    · rcases Facts.exists_value_of_index low high with ⟨value, hasVar⟩
      rcases Facts.exists_pushed_of_var? hasVar with ⟨site, rfl⟩
      exact ⟨site, Facts.definite_promotion explored declared low start begins visited hasVar⟩

theorem promoteValues_definite_printingLoop :
    printingLoop.validate = .ok () ∧ printingLoop.Declared ∧
      ∃ other, printingLoop.promoteValues 4 = .ok (other, 2) ∧
        other.vars = #[⟨0, true⟩, ⟨0, true⟩] ∧
        ∀ var, var.index < 2 → ∃ site, other.Definite var site := by
  have valid : printingLoop.validate = .ok () := by decide +kernel
  have declared : printingLoop.Declared := by
    unfold Declared
    decide +kernel
  have moved : (printingLoop.promoteValues 4).toOption.map (·.2) = some 2 := by decide +kernel
  rcases promoteValues_definite valid declared 4 with ⟨other, count, result, vars, definite⟩
  rw [result] at moved
  obtain rfl : count = 2 := Option.some.inj moved
  exact ⟨valid, declared, other, result, vars, fun var bound => definite var (Nat.zero_le _) bound⟩

end Graph

end StackFlow
