import Mathlib
import StackFlow.Proofs.Promotion.Depth

/-!
# What changed ops assign and read

An op that pushes a value of its own becomes an assignment to the variable of that
value, if there is one, and all other ops assign what they did before. What a
changed op reads beyond the variables of the op are variables of values that the op
pops or sees on top of the stack.
-/

namespace StackFlow

namespace Op

variable {op : Op} {var : VarId}

/-- The variable that the op assigns. -/
def target? : Op → Option VarId
  | .varSet var | .assign var _ | .inputVar var _ => some var
  | _ => none

/-- The variables that the op reads, once for each occurrence. -/
def reads : Op → List VarId
  | .varGet var => [var]
  | op => op.expressions.flatMap Expr.vars

theorem mem_vars_of_target? (assigns : op.target? = some var) : var ∈ op.vars := by
  cases op <;> simp_all [target?, vars, ownVariable]

theorem mem_reads :
    var ∈ op.reads ↔ op = .varGet var ∨ ∃ expr ∈ op.expressions, var ∈ expr.vars := by
  cases op <;> simp [reads, expressions, eq_comm]

theorem mem_vars_of_mem_reads (read : var ∈ op.reads) : var ∈ op.vars := by
  rcases mem_reads.mp read with rfl | inside
  · exact mem_vars.mpr (.inl (List.mem_singleton_self var))
  · exact mem_vars.mpr (.inr inside)

theorem target?_of_produces (produces : op.produces = true) : op.target? = none := by
  cases op <;> simp_all [target?, Op.produces, pushes]

end Op

namespace Promotion

variable {assignment : Assignment} {site : Site} {op new : Op} {use : Use} {expr : Expr}
  {var : VarId}

/-- Only where the value on top has no variable an expression still reads it from the stack. -/
theorem Assignment.readsStack_of_expr (reads : (assignment.expr use expr).readsStack = true) :
    expr.readsStack = true ∧ use.peeked.bind assignment.var? = none := by
  unfold Assignment.expr at reads
  cases found : use.peeked.bind assignment.var? with
  | none =>
      simp only [found] at reads
      exact ⟨reads, rfl⟩
  | some var =>
      simp only [found] at reads
      exact absurd reads (Bool.not_eq_true _ ▸ Expr.readsStack_substitute fun _ => rfl)

/-- The expression reads variables of the op and of values that the use sees. It reads the top of
the stack only if the op does and the value there has no variable. -/
structure Drawn (assignment : Assignment) (op : Op) (use : Use) (expr : Expr) : Prop where
  vars : ∀ var ∈ expr.vars, var ∈ op.reads ∨ ∃ value, use.Sees value ∧
    assignment.var? value = some var
  peeks : expr.readsStack = true → op.readsStack = true ∧ use.peeked.bind assignment.var? = none

namespace Drawn

theorem own (read : var ∈ op.reads) : Drawn assignment op use (.var var) where
  vars := fun _ member => .inl (List.mem_singleton.mp member ▸ read)
  peeks := fun reads => absurd reads Bool.false_ne_true

theorem input {value : Value} (member : value ∈ use.inputs)
    (hasVar : assignment.var? value = some var) : Drawn assignment op use (.var var) where
  vars := fun _ inside => .inr ⟨value, .inl member, List.mem_singleton.mp inside ▸ hasVar⟩
  peeks := fun reads => absurd reads Bool.false_ne_true

theorem operand {vars : List VarId} (moved : use.inputs.map assignment.var? = vars.map some)
    (member : var ∈ vars) : Drawn assignment op use (.var var) := by
  have listed : some var ∈ use.inputs.map assignment.var? := moved ▸ List.mem_map_of_mem member
  rcases List.mem_map.mp listed with ⟨value, inside, hasVar⟩
  exact input inside hasVar

theorem rewrite (listed : expr ∈ op.expressions) :
    Drawn assignment op use (assignment.expr use expr) where
  vars := by
    intro var member
    rcases Assignment.mem_vars_of_mem_expr member with inside | ⟨value, onTop, hasVar⟩
    · exact .inl (Op.mem_reads.mpr (.inr ⟨_, listed, inside⟩))
    · exact .inr ⟨value, .inr onTop, hasVar⟩
  peeks := by
    intro reads
    rcases Assignment.readsStack_of_expr reads with ⟨inside, stays⟩
    exact ⟨List.any_eq_true.mpr ⟨_, listed, inside⟩, stays⟩

theorem memory {x y : Expr} (column : Drawn assignment op use x) (row : Drawn assignment op use y) :
    Drawn assignment op use (.memory x y) where
  vars := by
    intro var member
    rcases List.mem_append.mp member with inside | inside
    · exact column.vars var inside
    · exact row.vars var inside
  peeks := by
    intro reads
    have sides : x.readsStack = true ∨ y.readsStack = true := by
      simpa [Expr.readsStack, Expr.any, Expr.isPeek] using reads
    exact sides.elim column.peeks row.peeks

/-- What an op computes from operands in variables. -/
theorem result {vars : List VarId} (moved : use.inputs.map assignment.var? = vars.map some)
    (computed : Assignment.result? op vars = some expr) : Drawn assignment op use expr where
  vars := by
    intro var member
    exact (operand moved ((Assignment.result?_spec computed).1 var member)).vars var
      (List.mem_singleton_self var)
  peeks := by
    intro reads
    unfold Assignment.result? at computed
    split at computed <;> cases computed
    · rcases Expr.readsStack_of_combine reads with absurd | absurd <;> cases absurd
    · cases Expr.readsStack_of_negation reads
    · cases reads

end Drawn

/-- What a changed op assigns and reads. -/
structure Rewritten (assignment : Assignment) (site : Site) (op : Op) (use : Use) (new : Op) :
    Prop where
  target : new.target? = if op.produces then assignment.var? (.pushed site) else op.target?
  plain : ∀ var, new = .varSet var ∨ new = .varGet var → new = op
  drawn : ∀ expr ∈ new.expressions, Drawn assignment op use expr

namespace Rewritten

theorem self (free : op.expressions = [])
    (result : op.produces = true → assignment.var? (.pushed site) = none) :
    Rewritten assignment site op use op where
  target := by
    split
    · rename_i produces
      rw [result produces, Op.target?_of_produces produces]
    · rfl
  plain := fun _ _ => rfl
  drawn := by simp [free]

theorem mapExpressions (result : op.produces = true → assignment.var? (.pushed site) = none) :
    Rewritten assignment site op use (op.mapExpressions (assignment.expr use)) where
  target := by
    have same : (op.mapExpressions (assignment.expr use)).target? = op.target? := by
      cases op <;> rfl
    split
    · rename_i produces
      rw [same, result produces, Op.target?_of_produces produces]
    · exact same
  plain := by
    intro var form
    cases op <;> simp_all [Op.mapExpressions]
  drawn := by
    have expressions : (op.mapExpressions (assignment.expr use)).expressions =
        op.expressions.map (assignment.expr use) := by cases op <;> rfl
    rw [expressions]
    intro expr member
    rcases List.mem_map.mp member with ⟨old, listed, rfl⟩
    exact .rewrite listed

theorem assign (produces : op.produces = true) (result : assignment.var? (.pushed site) = some var)
    (drawn : Drawn assignment op use expr) :
    Rewritten assignment site op use (.assign var expr) where
  target := by rw [if_pos produces, result, Op.target?]
  plain := by simp
  drawn := by simpa [Op.expressions] using drawn

theorem nop (produces : op.produces = false) (target : op.target? = none) :
    Rewritten assignment site op use .nop where
  target := by
    rw [produces, target]
    rfl
  plain := by simp
  drawn := by simp [Op.expressions]

theorem of_compute (free : op.expressions = []) (form : op.produces = true ∨ op = .set)
    (changed : assignment.compute site op use = .ok new) :
    Rewritten assignment site op use new := by
  rcases Assignment.compute_cases changed with ⟨rfl, -, result⟩ | ⟨vars, moved, moves⟩
  · exact self free fun _ => result
  · rcases moves with ⟨y, x, value, rfl, rfl, rfl⟩ | ⟨var, value, result, computed, rfl⟩
    · have operands : ∀ var ∈ [x, y, value], Drawn assignment .set use (.var var) := by
        intro var member
        exact .operand moved (by simpa [or_left_comm] using member)
      exact ⟨rfl, by simp, by simpa [Op.expressions] using operands⟩
    · rcases form with produces | rfl
      · exact assign produces result (.result moved computed)
      · cases computed

theorem of_op (known : assignment.use? site = some use)
    (changed : assignment.op site op = .ok new) : Rewritten assignment site op use new := by
  have input : ∀ {var}, use.inputs.head?.bind assignment.var? = some var →
      Drawn assignment op use (.var var) := by
    intro var found
    rcases Option.bind_eq_some_iff.mp found with ⟨value, first, hasVar⟩
    exact .input (List.mem_of_mem_head? first) hasVar
  simp only [Assignment.op, known] at changed
  cases op with
  | nop | printText text | inputVar var format =>
      cases changed
      exact self rfl (by simp [Op.produces, Op.pushes])
  | store x y value | assign var value | print value format =>
      cases changed
      exact mapExpressions (by simp [Op.produces, Op.pushes])
  | push value =>
      cases result : assignment.var? (.pushed site) <;>
        simp only [result, Option.elim] at changed <;> cases changed
      · exact mapExpressions fun _ => result
      · exact assign rfl result (.rewrite (List.mem_singleton_self value))
  | load x y =>
      cases result : assignment.var? (.pushed site) <;>
        simp only [result, Option.elim] at changed <;> cases changed
      · exact mapExpressions fun _ => result
      · exact assign rfl result
          (.memory (.rewrite (by simp [Op.expressions])) (.rewrite (by simp [Op.expressions])))
  | varGet source =>
      cases result : assignment.var? (.pushed site) <;>
        simp only [result, Option.elim] at changed <;> cases changed
      · exact self rfl fun _ => result
      · exact assign rfl result (.own (List.mem_singleton_self source))
  | input format =>
      cases result : assignment.var? (.pushed site) <;>
        simp only [result, Option.elim] at changed <;> cases changed
      · exact self rfl fun _ => result
      · exact ⟨result.symm, by simp, by simp [Op.expressions]⟩
  | pop =>
      cases found : use.inputs.head?.bind assignment.var? <;> simp [found] at changed <;>
        cases changed
      · exact self rfl (by simp [Op.produces, Op.pushes])
      · exact nop rfl rfl
  | varSet target | output format =>
      cases found : use.inputs.head?.bind assignment.var? <;>
        simp only [found, Option.elim] at changed <;> cases changed
      · exact self rfl (by simp [Op.produces, Op.pushes])
      · exact ⟨rfl, by simp, by simpa [Op.expressions] using input found⟩
  | swap =>
      rcases bind_eq_ok_iff.mp changed with ⟨vars?, -, changed⟩
      cases vars? <;> cases changed
      · exact self rfl (by simp [Op.produces])
      · exact nop rfl rfl
  | dup =>
      cases found : use.inputs.head?.bind assignment.var? <;>
        cases result : assignment.var? (.pushed site) <;>
        simp only [found, result] at changed <;> cases changed
      · exact self rfl fun _ => result
      · exact assign rfl result (input found)
  | math operator | not | get => exact of_compute rfl (.inl rfl) changed
  | set => exact of_compute rfl (.inr rfl) changed

variable (rewritten : Rewritten assignment site op use new)
include rewritten

theorem reads (read : var ∈ new.reads) :
    var ∈ op.reads ∨ ∃ value, use.Sees value ∧ assignment.var? value = some var := by
  rcases Op.mem_reads.mp read with rfl | ⟨expr, listed, inside⟩
  · exact .inl (rewritten.plain var (.inr rfl) ▸ read)
  · exact (rewritten.drawn expr listed).vars var inside

theorem peeks (reads : new.readsStack = true) :
    op.readsStack = true ∧ use.peeked.bind assignment.var? = none := by
  rcases List.any_eq_true.mp reads with ⟨expr, listed, inside⟩
  exact (rewritten.drawn expr listed).peeks inside

end Rewritten

theorem ofOp_mem_ofKind {id : VertexId} {kind : Kind} {place : Nat}
    (present : kind.ops[place]? = some op) (stack : Stack) :
    ofOp ⟨id, place⟩ op (stackAfter stack (ofOps id 0 (kind.ops.take place) stack)) ∈
      ofKind id kind stack := by
  have atPlace : (ofOps id 0 kind.ops stack)[place]? = _ := getElem?_ofOps 0 present stack
  rw [Nat.zero_add] at atPlace
  exact List.mem_append_left _ (List.mem_of_getElem? atPlace)

theorem ofExit_mem_ofKind {id : VertexId} (kind : Kind) (stack : Stack) :
    ofExit ⟨id, kind.ops.length⟩ kind.exit (stackAfter stack (ofOps id 0 kind.ops stack)) ∈
      ofKind id kind stack :=
  List.mem_append_right _ (List.mem_singleton_self _)

/-- Ops are changed one by one, in their places. -/
theorem Assignment.map_ok_of_ops {id : VertexId} {index : Nat} {ops body : List Op}
    (changed : assignment.ops id index ops = .ok body) :
    body.map .ok = ops.mapIdx fun place op => assignment.op ⟨id, index + place⟩ op := by
  induction ops generalizing index body with
  | nil =>
      cases changed
      rfl
  | cons op ops ih =>
      rcases bind_eq_ok_iff.mp changed with ⟨new, changedOp, rest⟩
      rcases bind_eq_ok_iff.mp rest with ⟨others, changedOps, same⟩
      cases same
      rw [List.map_cons, List.mapIdx_cons, Nat.add_zero, changedOp, ih changedOps]
      simp only [Nat.add_assoc, Nat.add_comm 1]

namespace Facts

variable {facts : Facts} {id : VertexId} {vertex : Vertex} {place : Nat}
  (found : facts.graph.vertex? id = some vertex)
include found

theorem map_ok_change (explored : Explored facts.graph facts.visits) :
    (facts.change id vertex.kind).ops.map .ok =
      vertex.kind.ops.mapIdx fun place op => facts.choice.op ⟨id, place⟩ op := by
  rcases Assignment.exists_ops (change_spec_of_live explored found).1 with ⟨body, changed, rfl, -⟩
  simpa only [Nat.zero_add] using Assignment.map_ok_of_ops changed

theorem length_ops_change (explored : Explored facts.graph facts.visits) :
    (facts.change id vertex.kind).ops.length = vertex.kind.ops.length := by
  simpa using congrArg List.length (map_ok_change found explored)

theorem getElem?_change (explored : Explored facts.graph facts.visits) (place : Nat) :
    (facts.change id vertex.kind).ops[place]?.map .ok =
      vertex.kind.ops[place]?.map (facts.choice.op ⟨id, place⟩) := by
  simpa using congrArg (·[place]?) (map_ok_change found explored)

/-- The op that was changed to one of the new ops. -/
theorem exists_op (explored : Explored facts.graph facts.visits)
    (present : (facts.change id vertex.kind).ops[place]? = some new) :
    ∃ op, vertex.kind.ops[place]? = some op ∧ facts.choice.op ⟨id, place⟩ op = .ok new := by
  have same := (getElem?_change found explored place).symm
  rwa [present, Option.map_some, Option.map_eq_some_iff] at same

theorem exists_new (explored : Explored facts.graph facts.visits)
    (present : vertex.kind.ops[place]? = some op) :
    ∃ new, (facts.change id vertex.kind).ops[place]? = some new ∧
      facts.choice.op ⟨id, place⟩ op = .ok new := by
  have same := getElem?_change found explored place
  rw [present, Option.map_some, Option.map_eq_some_iff] at same
  rcases same with ⟨new, newPresent, changed⟩
  exact ⟨new, newPresent, changed.symm⟩

variable {first : Visit} (isFirst : facts.visits.find? (·.vertex = id) = some first)
include isFirst

/-- The use of an op is recorded with the stack that the ops before it leave on the first visit. -/
theorem use?_of_op (present : vertex.kind.ops[place]? = some op) :
    facts.choice.use? ⟨id, place⟩ = some (ofOp ⟨id, place⟩ op
      (stackAfter first.stack (ofOps id 0 (vertex.kind.ops.take place) first.stack))) := by
  have known := (use?_of_record found isFirst).2 _ (ofOp_mem_ofKind present first.stack)
  rw [site_ofOp] at known
  exact known

theorem use?_of_exit :
    facts.choice.use? ⟨id, vertex.kind.ops.length⟩ =
      some (ofExit ⟨id, vertex.kind.ops.length⟩ vertex.kind.exit
        (stackAfter first.stack (ofOps id 0 vertex.kind.ops first.stack))) :=
  (use?_of_record found isFirst).2 _ (ofExit_mem_ofKind vertex.kind first.stack)

end Facts

end Promotion

end StackFlow
