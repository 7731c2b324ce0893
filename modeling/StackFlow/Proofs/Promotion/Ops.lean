import Mathlib
import StackFlow.Proofs.Expr.Meaning
import StackFlow.Proofs.Graph.Consistency
import StackFlow.Proofs.Machine.Runs
import StackFlow.Proofs.Promotion.Split

/-!
# Ops after the promotion

An op is changed once, by the stack with which it was first met. It is met with
other stacks too, and in a run with stacks of any tags. All that the change depends
on is which operands have variables and which variables these are, so it is enough
that all those stacks agree on the variables of the operands.

An op is replaced by one that does in a split state what the op does in the
original state. The same follows for runs of ops and for vertices.
-/

namespace StackFlow

@[simp]
theorem State.replace_replace (state : State) (count : Nat) (words : List Word) (word : Word) :
    (state.replace count words).replace 0 [word] = state.replace count (words ++ [word]) := by
  simp [State.replace]

namespace Promotion

variable {assignment : Assignment} {base : Nat}

/-- At every place both stacks have values with the same variable or both have values without. -/
def Agree (assignment : Assignment) (first second : Stack) : Prop :=
  ∀ place, assignment.var? (valueAt first place) = assignment.var? (valueAt second place)

/-- Either all values have a variable or none has. -/
def AllOrNone (assignment : Assignment) (values : List Value) : Prop :=
  (∀ value ∈ values, assignment.var? value = none) ∨
    ∀ value ∈ values, (assignment.var? value).isSome = true

/-- No variable belongs to two places of the stack. -/
def Distinct (assignment : Assignment) (stack : Stack) : Prop :=
  ∀ first second {var}, assignment.var? (valueAt stack first) = some var →
    assignment.var? (valueAt stack second) = some var → first = second

namespace Agree

variable {first second : Stack}

theorem drop (agree : Agree assignment first second) (count : Nat) :
    Agree assignment (first.drop count) (second.drop count) := by
  intro place
  rw [valueAt_drop, valueAt_drop, agree]

theorem cons (agree : Agree assignment first second) {value other : Value}
    (same : assignment.var? value = assignment.var? other) :
    Agree assignment (value :: first) (other :: second) := by
  intro place
  cases place with
  | zero => exact same
  | succ place => simpa using agree place

theorem append (agree : Agree assignment first second) (values : List Value) :
    Agree assignment (values ++ first) (values ++ second) := by
  induction values with
  | nil => exact agree
  | cons value values rest => exact rest.cons rfl

theorem distinct (agree : Agree assignment first second) (distinct : Distinct assignment second) :
    Distinct assignment first := by
  intro place other var found otherFound
  rw [agree] at found otherFound
  exact distinct place other found otherFound

/-- Tags that agree with a symbolic stack agree with what an op makes of it. -/
theorem tagsAfterOp (agree : Agree assignment first second) (site : Site) (op : Op) :
    Agree assignment (tagsAfterOp site op first) (ofOp site op second).after := by
  cases op with
  | swap =>
      have both := ((agree.drop 2).cons (agree 0)).cons (agree 1)
      simpa [Promotion.tagsAfterOp, ofOp, topmost_eq_map_valueAt, List.range_succ] using both
  | dup =>
      -- The tags keep a value below the copy even where the symbolic stack has none.
      have below : Agree assignment (valueAt first 0 :: first.drop 1) second := by
        intro place
        cases place with
        | zero => exact agree 0
        | succ place => rw [valueAt_cons_succ, valueAt_drop, Nat.add_comm, agree]
      exact below.cons rfl
  | nop | push value | pop | math operator | not | get | set | load x y | store x y value
  | varGet var | varSet var | assign var value | output format | print value format | printText text
  | input format | inputVar var format =>
      exact (agree.drop _).append _

end Agree

/-- An expression that reads the variable of the value on top has the value of the original. -/
theorem Split.eval {entries : List (Value × Word)} {state twin : State}
    (split : Split assignment base entries state twin) (fresh : assignment.Fresh base) {use : Use}
    {expr : Expr} (own : ∀ var ∈ expr.vars, var.index < base)
    (peeked : ∀ value, use.peeked = some value →
      assignment.var? value = assignment.var? (valueAt (tags entries) 0))
    (seen : expr.readsStack = true → use.peeked.isSome = true) :
    (assignment.expr use expr).eval twin.env = expr.eval state.env := by
  have vars : ∀ var ∈ expr.vars, twin.vars var = state.vars var :=
    fun var member => split.vars var (own var member)
  have cell : twin.env.cell = state.env.cell := by simp only [State.env, split.grid]
  unfold Assignment.expr
  cases found : use.peeked.bind assignment.var? with
  | some var =>
      rcases Option.bind_eq_some_iff.mp found with ⟨value, onTop, hasVar⟩
      rw [peeked value onTop] at hasVar
      rw [Expr.eval_substitute]
      simp only [Expr.eval]
      rw [Expr.evalWith_isPeek]
      exact Expr.eval_congr vars cell fun _ => split.var_eq_operand fresh hasVar
  | none =>
      -- The top of the stack matters only if the expression reads it, and then it was seen.
      refine Expr.eval_congr vars cell fun reads => split.operand_kept ?_
      rcases Option.isSome_iff_exists.mp (seen reads) with ⟨value, onTop⟩
      intro above bound
      rw [Nat.le_zero.mp bound, ← peeked value onTop]
      simpa [onTop] using found

/-- A stack on which an op is run, beside the one with which it was first met. -/
structure Meets (assignment : Assignment) (base : Nat) (site : Site) (op : Op)
    (first tags : Stack) : Prop where
  own : ∀ var ∈ op.vars, var.index < base
  inputs : ∀ place < op.pops,
    assignment.var? (valueAt first place) = assignment.var? (valueAt tags place)
  peeked : op.readsStack = true →
    assignment.var? (valueAt first 0) = assignment.var? (valueAt tags 0)
  distinct : Distinct assignment (tagsAfterOp site op tags)

/-- In split states the new op does what the op does, if its operands have the variables they had at
first. -/
def Mimics (assignment : Assignment) (base : Nat) (site : Site) (op : Op) (first : Stack)
    (new : Op) : Prop :=
  ∀ {entries state twin}, Meets assignment base site op first (Split.tags entries) →
    Split assignment base entries state twin →
    op.events state = new.events twin ∧
      ∃ after, Split.tags after = tagsAfterOp site op (Split.tags entries) ∧
        Split assignment base after (op.run state) (new.run twin)

section

variable {site : Site} {first : Stack}

/-- An op without expressions whose operands and results are on the stack can stay. -/
theorem mimics_self {op : Op} (fresh : assignment.Fresh base) (plain : op.expressions = [])
    (operands : ∀ place < op.pops, assignment.var? (valueAt first place) = none)
    (result : 0 < op.pushes → assignment.var? (.pushed site) = none ∨ op = .swap) :
    Mimics assignment base site op first op := by
  intro entries state twin meets split
  have stays : ∀ place < op.pops, assignment.var? (valueAt (Split.tags entries) place) = none :=
    fun place bound => meets.inputs place bound ▸ operands place bound
  have same : ∀ place < op.pops, twin.operand place = state.operand place :=
    fun place bound => split.operand_kept fun above below =>
      stays above (Nat.lt_of_le_of_lt below bound)
  have ownVar : ∀ var ∈ op.ownVariable, var.index < base :=
    fun var member => meets.own var (Op.mem_vars.mpr (.inl member))
  have dropped := split.drop_kept stays
  cases op with
  | push value | load x y | store x y value | assign var value | print value format => cases plain
  | nop | printText text => exact ⟨rfl, entries, rfl, split⟩
  | pop => exact ⟨rfl, entries.drop 1, List.map_drop .., dropped⟩
  | output format =>
      refine ⟨?_, entries.drop 1, List.map_drop .., dropped⟩
      simp only [Op.events, same 0 Nat.one_pos]
  | varSet var =>
      refine ⟨rfl, entries.drop 1, List.map_drop .., ?_⟩
      simp only [Op.run, same 0 Nat.one_pos]
      exact (split.assign_own fresh (ownVar var (List.mem_singleton_self var)) _).drop_kept stays
  | inputVar var format =>
      refine ⟨by simp only [Op.events, split.input], entries, rfl, ?_⟩
      simp only [Op.run, split.input]
      exact split.skipInput.assign_own fresh (ownVar var (List.mem_singleton_self var)) _
  | set =>
      refine ⟨rfl, entries.drop 3, List.map_drop .., ?_⟩
      simp only [Op.run, same 0 (by decide), same 1 (by decide), same 2 (by decide)]
      exact (split.store _ _ _).drop_kept stays
  | swap =>
      have right := same 0 Nat.two_pos
      have left := same 1 Nat.one_lt_two
      have exchanged :=
        (dropped.push_kept (stays 0 (by decide)) (state.operand 0)).push_kept (stays 1 (by decide))
          (state.operand 1)
      refine ⟨rfl, _ :: _ :: entries.drop 2, ?_,
        by simpa [Op.run, right, left, Op.pops] using exchanged⟩
      simp [tagsAfterOp, List.map_drop]
  | dup =>
      have right := same 0 Nat.one_pos
      have copied := (dropped.push_kept (stays 0 (by decide)) (state.operand 0)).push_kept
        ((result (by decide)).resolve_right (by simp)) (state.operand 0)
      refine ⟨rfl, _ :: _ :: entries.drop 1, ?_, by simpa [Op.run, right, Op.pops] using copied⟩
      simp [tagsAfterOp]
  | math operator =>
      have right := same 0 Nat.two_pos
      have left := same 1 Nat.one_lt_two
      have pushed := dropped.push_kept ((result Nat.one_pos).resolve_right (by simp))
        (operator.evaluate (state.operand 1) (state.operand 0))
      refine ⟨rfl, _ :: entries.drop 2, ?_, by simpa [Op.run, right, left, Op.pops] using pushed⟩
      simp [tagsAfterOp, Op.pops, Op.pushes, List.map_drop]
  | not =>
      have right := same 0 Nat.one_pos
      have pushed := dropped.push_kept ((result Nat.one_pos).resolve_right (by simp))
        (if state.operand 0 = 0 then 1 else 0)
      refine ⟨rfl, _ :: entries.drop 1, ?_, by simpa [Op.run, right, Op.pops] using pushed⟩
      simp [tagsAfterOp, Op.pops, Op.pushes]
  | get =>
      have right := same 0 Nat.two_pos
      have left := same 1 Nat.one_lt_two
      have pushed := dropped.push_kept ((result Nat.one_pos).resolve_right (by simp))
        (state.grid.read (state.operand 1) (state.operand 0))
      refine ⟨rfl, _ :: entries.drop 2, ?_,
        by simpa [Op.run, right, left, Op.pops, split.grid] using pushed⟩
      simp [tagsAfterOp, Op.pops, Op.pushes, List.map_drop]
  | varGet var =>
      have pushed := split.push_kept ((result Nat.one_pos).resolve_right (by simp)) (state.vars var)
      have value := split.vars var (ownVar var (List.mem_singleton_self var))
      refine ⟨rfl, _ :: entries, ?_, by simpa [Op.run, value] using pushed⟩
      simp [tagsAfterOp, Op.pops, Op.pushes]
  | input format =>
      have pushed := split.skipInput.push_kept ((result Nat.one_pos).resolve_right (by simp))
        (state.input 0)
      refine ⟨by simp only [Op.events, split.input], _ :: entries, ?_,
        by simpa [Op.run, split.input] using pushed⟩
      simp [tagsAfterOp, Op.pops, Op.pushes]

theorem inputs_ofOp (op : Op) : (ofOp site op first).inputs = topmost op.pops first := by
  cases op <;> rfl

theorem peeked_ofOp (op : Op) :
    (ofOp site op first).peeked = if op.readsStack then some (valueAt first 0) else none := by
  cases op <;> simp only [ofOp, top_eq_valueAt]

/-- A new value in a variable that no entry of the stack uses. -/
theorem Split.push_new {entries : List (Value × Word)} {state twin : State}
    (split : Split assignment base entries state twin) (fresh : assignment.Fresh base) {tag : Value}
    {var : VarId} (leaves : assignment.var? tag = some var)
    (distinct : Distinct assignment (tag :: tags entries)) (word : Word) :
    Split assignment base ((tag, word) :: entries) (state.replace 0 [word])
      (twin.assign var word) := by
  have absent : ∀ entry ∈ entries, assignment.var? entry.1 ≠ some var := by
    intro entry member found
    rcases List.getElem?_of_mem member with ⟨place, present⟩
    have tagAt : valueAt (tag :: tags entries) (place + 1) = entry.1 := by
      simp [valueAt, tags, List.getD_eq_getElem?_getD, present]
    exact absurd (distinct 0 (place + 1) leaves (tagAt ▸ found)) (Nat.succ_ne_zero place).symm
  exact (split.assign_moved fresh leaves absent word).push_moved leaves (by simp [State.assign])

namespace Assignment

theorem mem_vars_of_mem_expr {use : Use} {expr : Expr} {var : VarId}
    (member : var ∈ (assignment.expr use expr).vars) :
    var ∈ expr.vars ∨ ∃ value, use.peeked = some value ∧ assignment.var? value = some var := by
  unfold Assignment.expr at member
  split at member
  · rename_i topVar found
    rcases Expr.mem_vars_of_mem_substitute member with old | ⟨_, _, new⟩
    · exact .inl old
    · rcases Option.bind_eq_some_iff.mp found with ⟨value, onTop, hasVar⟩
      exact .inr ⟨value, onTop, List.mem_singleton.mp new ▸ hasVar⟩
  · exact .inl member

theorem allOrNone_of_none {op : Op} {values : List Value} (nonempty : values ≠ [])
    (stays : ∀ value ∈ values, assignment.var? value = none) :
    assignment.allOrNone site op values = .ok none := by
  rcases List.exists_cons_of_ne_nil nonempty with ⟨value, rest, rfl⟩
  have first := stays value (List.mem_cons_self ..)
  have all : (value :: rest).all (fun value => (assignment.var? value).isNone) = true := by
    simpa [List.all_eq_true] using stays
  simp [allOrNone, List.mapM_cons, first, all]

theorem allOrNone_of_some {op : Op} {values : List Value} {vars : List VarId}
    (leaves : values.map assignment.var? = vars.map some) :
    assignment.allOrNone site op values = .ok (some vars) := by
  have found : values.mapM assignment.var? = some vars := by
    induction values generalizing vars with
    | nil =>
        cases vars with
        | nil => rfl
        | cons var vars => cases leaves
    | cons value values rest =>
        cases vars with
        | nil => cases leaves
        | cons var vars =>
            rw [List.map_cons, List.map_cons, List.cons.injEq] at leaves
            simp [List.mapM_cons, leaves.1, rest leaves.2]
  simp [allOrNone, found]

/-- Values that all have a variable, with the list of their variables. -/
theorem exists_vars {values : List Value}
    (leaves : ∀ value ∈ values, (assignment.var? value).isSome = true) :
    ∃ vars : List VarId, values.map assignment.var? = vars.map some := by
  induction values with
  | nil => exact ⟨[], rfl⟩
  | cons value values rest =>
      rcases Option.isSome_iff_exists.mp (leaves value (List.mem_cons_self ..)) with ⟨var, found⟩
      rcases rest fun other member => leaves other (List.mem_cons_of_mem _ member) with
        ⟨vars, others⟩
      exact ⟨var :: vars, by rw [List.map_cons, List.map_cons, found, others]⟩

end Assignment

/-- The op is replaced by one that mimics it and that has no other variables than those of
values. -/
def Promotes (assignment : Assignment) (base : Nat) (site : Site) (op : Op) (first : Stack) :
    Prop :=
  ∃ new, assignment.op site op = .ok new ∧
    (∀ var ∈ new.vars, var ∈ op.vars ∨ ∃ value, assignment.var? value = some var) ∧
    Mimics assignment base site op first new

namespace Meets

variable {op : Op}

/-- Operands that had variables at first have them again. -/
theorem moved {tags : Stack} (meets : Meets assignment base site op first tags)
    (leaves : ∀ place < op.pops, (assignment.var? (valueAt first place)).isSome = true) :
    ∀ place < op.pops, (assignment.var? (valueAt tags place)).isSome = true :=
  fun place bound => meets.inputs place bound ▸ leaves place bound

variable {entries : List (Value × Word)} {state twin : State}
  (meets : Meets assignment base site op first (Split.tags entries))
  (split : Split assignment base entries state twin) (fresh : assignment.Fresh base)
include meets split fresh

/-- An operand that had a variable at first is the value of that variable. -/
theorem var_eq_operand {place : Nat} {var : VarId} (bound : place < op.pops)
    (found : assignment.var? (valueAt first place) = some var) :
    twin.vars var = state.operand place :=
  split.var_eq_operand fresh ((meets.inputs place bound).symm.trans found)

theorem map_vars {vars : List VarId}
    (leaves : (topmost op.pops first).map assignment.var? = vars.map some) :
    vars.map twin.vars = (List.range op.pops).map state.operand := by
  have count : op.pops = vars.length := by simpa using congrArg List.length leaves
  apply List.ext_getElem
  · simp [count]
  · intro place _ inside
    have bound : place < op.pops := by simpa using inside
    have found : assignment.var? (valueAt first place) =
        some (vars.get ⟨place, count ▸ bound⟩) := by
      have atPlace := congrArg (fun list => list[place]?) leaves
      simpa [topmost_eq_map_valueAt, List.getElem?_range bound,
        List.getElem?_eq_getElem (count ▸ bound)] using atPlace
    simpa using meets.var_eq_operand split fresh bound found

end Meets

/-- An op without expressions whose operands and results are on the stack stays. -/
theorem promotes_self {op : Op} (fresh : assignment.Fresh base)
    (same : assignment.op site op = .ok op) (plain : op.expressions = [])
    (operands : ∀ place < op.pops, assignment.var? (valueAt first place) = none)
    (result : 0 < op.pushes → assignment.var? (.pushed site) = none ∨ op = .swap) :
    Promotes assignment base site op first :=
  ⟨op, same, fun _ member => .inl member, mimics_self fresh plain operands result⟩

/-- An op that only pushes a value becomes an assignment of that value to its variable. -/
theorem promotes_assign {op : Op} {var : VarId} {expr : Expr} (fresh : assignment.Fresh base)
    (new : assignment.op site op = .ok (.assign var expr))
    (result : assignment.var? (.pushed site) = some var)
    (operands : ∀ place < op.pops, (assignment.var? (valueAt first place)).isSome = true)
    (pushes : ∀ tags, tagsAfterOp site op tags = .pushed site :: tags.drop op.pops)
    (silent : ∀ state, op.events state = [])
    (vars : ∀ other ∈ expr.vars, other ∈ op.vars ∨ ∃ value, assignment.var? value = some other)
    (value : ∀ {entries state twin}, Meets assignment base site op first (Split.tags entries) →
      Split assignment base entries state twin →
      op.run state = state.replace op.pops [expr.eval twin.env]) :
    Promotes assignment base site op first := by
  refine ⟨.assign var expr, new, ?_, ?_⟩
  · intro other member
    have cases : other = var ∨ other ∈ expr.vars := by
      simpa [Op.vars, Op.ownVariable, Op.expressions] using member
    rcases cases with rfl | inside
    · exact .inr ⟨_, result⟩
    · exact vars other inside
  · intro entries state twin meets split
    have popped := split.drop_moved fresh (meets.moved operands)
    have tags : Split.tags (entries.drop op.pops) = (Split.tags entries).drop op.pops :=
      List.map_drop ..
    have distinct : Distinct assignment (.pushed site :: Split.tags (entries.drop op.pops)) := by
      rw [tags, ← pushes]
      exact meets.distinct
    refine ⟨silent state, (.pushed site, expr.eval twin.env) :: entries.drop op.pops, ?_, ?_⟩
    · rw [pushes, ← tags]
      rfl
    · rw [value meets split]
      simpa [Op.run] using popped.push_new fresh result distinct (expr.eval twin.env)

/-- The expressions of an op keep their values when they read the variable of the value on top. -/
theorem Split.eval_expressions {op : Op} {entries : List (Value × Word)} {state twin : State}
    (split : Split assignment base entries state twin) (fresh : assignment.Fresh base)
    (meets : Meets assignment base site op first (tags entries)) :
    ∀ expr ∈ op.expressions,
      (assignment.expr (ofOp site op first) expr).eval twin.env = expr.eval state.env := by
  intro expr member
  refine split.eval fresh (fun var inside => meets.own var ?_) (fun value onTop => ?_)
    (fun reads => ?_)
  · exact Op.mem_vars.mpr (.inr ⟨expr, member, inside⟩)
  · rw [peeked_ofOp] at onTop
    split at onTop
    · rename_i reads
      exact Option.some.inj onTop ▸ meets.peeked reads
    · cases onTop
  · have opReads : op.readsStack = true := List.any_eq_true.mpr ⟨expr, member, reads⟩
    rw [peeked_ofOp, if_pos opReads, Option.isSome_some]

theorem Assignment.mem_vars_of_mem_expressions (assignment : Assignment) (use : Use) (op : Op) :
    ∀ expr ∈ op.expressions, ∀ var ∈ (assignment.expr use expr).vars,
      var ∈ op.vars ∨ ∃ value, assignment.var? value = some var := by
  intro expr listed var member
  rcases Assignment.mem_vars_of_mem_expr member with inside | ⟨value, -, hasVar⟩
  · exact .inl (Op.mem_vars.mpr (.inr ⟨expr, listed, inside⟩))
  · exact .inr ⟨value, hasVar⟩

/-- An op may stay but for its expressions, which read the variable of the value on top. -/
theorem promotes_mapExpressions {op : Op}
    (new : assignment.op site op = .ok (op.mapExpressions (assignment.expr (ofOp site op first))))
    (mimics : Mimics assignment base site op first
      (op.mapExpressions (assignment.expr (ofOp site op first)))) :
    Promotes assignment base site op first := by
  refine ⟨_, new, fun var member => ?_, mimics⟩
  rcases Op.mem_vars_mapExpressions.mp member with own | ⟨expr, listed, inside⟩
  · exact .inl (Op.mem_vars.mpr (.inl own))
  · exact assignment.mem_vars_of_mem_expressions _ op expr listed var inside

theorem promotes_push {value : Expr} (fresh : assignment.Fresh base)
    (known : assignment.use? site = some (ofOp site (.push value) first)) :
    Promotes assignment base site (.push value) first := by
  have listed : value ∈ (Op.push value).expressions := List.mem_singleton_self value
  cases result : assignment.var? (.pushed site) with
  | none =>
      apply promotes_mapExpressions (by simp [Assignment.op, known, result, Op.mapExpressions])
      intro entries state twin meets split
      refine ⟨rfl, (.pushed site, value.eval state.env) :: entries,
        by simp [tagsAfterOp, Op.pops, Op.pushes], ?_⟩
      simp only [Op.mapExpressions, Op.run, split.eval_expressions fresh meets value listed]
      exact split.push_kept result _
  | some var =>
      have new : assignment.op site (.push value) =
          .ok (.assign var (assignment.expr (ofOp site (.push value) first) value)) := by
        simp only [Assignment.op, known, result, Option.elim]
      have vars :=
        assignment.mem_vars_of_mem_expressions (ofOp site (.push value) first) _ value listed
      refine promotes_assign fresh new result (by simp [Op.pops]) (fun _ => rfl)
        (fun _ => rfl) vars ?_
      intro entries state twin meets split
      rw [split.eval_expressions fresh meets value listed]
      rfl

theorem promotes_load {x y : Expr} (fresh : assignment.Fresh base)
    (known : assignment.use? site = some (ofOp site (.load x y) first)) :
    Promotes assignment base site (.load x y) first := by
  have listedX : x ∈ (Op.load x y).expressions := by simp [Op.expressions]
  have listedY : y ∈ (Op.load x y).expressions := by simp [Op.expressions]
  cases result : assignment.var? (.pushed site) with
  | none =>
      apply promotes_mapExpressions (by simp [Assignment.op, known, result, Op.mapExpressions])
      intro entries state twin meets split
      have same := split.eval_expressions fresh meets
      refine ⟨rfl, (.pushed site, state.grid.read (x.eval state.env) (y.eval state.env)) :: entries,
        by simp [tagsAfterOp, Op.pops, Op.pushes], ?_⟩
      simp only [Op.mapExpressions, Op.run, same x listedX, same y listedY, split.grid]
      exact split.push_kept result _
  | some var =>
      have new : assignment.op site (.load x y) = .ok (.assign var (.memory
          (assignment.expr (ofOp site (.load x y) first) x)
          (assignment.expr (ofOp site (.load x y) first) y))) := by
        simp only [Assignment.op, known, result, Option.elim]
      have vars := assignment.mem_vars_of_mem_expressions (ofOp site (.load x y) first) (.load x y)
      refine promotes_assign fresh new result (by simp [Op.pops]) (fun _ => rfl) (fun _ => rfl)
        (fun other member => (List.mem_append.mp member).elim (vars x listedX other)
          (vars y listedY other)) ?_
      intro entries state twin meets split
      have same := split.eval_expressions fresh meets
      have cell : twin.env.cell = state.grid.read := congrArg Grid.read split.grid
      rw [Expr.eval, same x listedX, same y listedY, cell]
      rfl

theorem promotes_varGet {source : VarId} (fresh : assignment.Fresh base)
    (known : assignment.use? site = some (ofOp site (.varGet source) first)) :
    Promotes assignment base site (.varGet source) first := by
  cases result : assignment.var? (.pushed site) with
  | none =>
      exact promotes_self fresh (by simp [Assignment.op, known, result]) rfl (by simp [Op.pops])
        fun _ => .inl result
  | some var =>
      have new : assignment.op site (.varGet source) = .ok (.assign var (.var source)) := by
        simp only [Assignment.op, known, result, Option.elim]
      refine promotes_assign fresh new result (by simp [Op.pops]) (fun _ => rfl) (fun _ => rfl)
        (fun other member => .inl ?_) ?_
      · simpa [Op.vars, Op.ownVariable, Op.expressions, Expr.vars] using member
      · intro entries state twin meets split
        simp only [Expr.eval, State.env,
          split.vars source (meets.own source (by simp [Op.vars, Op.ownVariable]))]
        rfl

theorem promotes_input {format : Format} (fresh : assignment.Fresh base)
    (known : assignment.use? site = some (ofOp site (.input format) first)) :
    Promotes assignment base site (.input format) first := by
  cases result : assignment.var? (.pushed site) with
  | none =>
      exact promotes_self fresh (by simp [Assignment.op, known, result]) rfl (by simp [Op.pops])
        fun _ => .inl result
  | some var =>
      refine ⟨.inputVar var format, by simp [Assignment.op, known, result],
        fun other member => .inr ?_, ?_⟩
      · have same : other = var := by simpa [Op.vars, Op.ownVariable, Op.expressions] using member
        exact ⟨_, same ▸ result⟩
      · intro entries state twin meets split
        refine ⟨by simp only [Op.events, split.input], (.pushed site, state.input 0) :: entries,
          by simp [tagsAfterOp, Op.pops, Op.pushes], ?_⟩
        simp only [Op.run, split.input]
        exact split.skipInput.push_new fresh result
          (by simpa [tagsAfterOp, Op.pops, Op.pushes] using meets.distinct) _

/-- An op with one operand stays while that is on the stack, and otherwise takes it from its
variable. -/
theorem promotes_operand {op : Op} {moved : VarId → Op} (fresh : assignment.Fresh base)
    (new : assignment.op site op = .ok ((assignment.var? (valueAt first 0)).elim op moved))
    (plain : op.expressions = []) (pops : op.pops = 1) (pushes : op.pushes = 0)
    (vars : ∀ var, ∀ other ∈ (moved var).vars, other ∈ op.vars ∨ other = var)
    (mimics : ∀ var, assignment.var? (valueAt first 0) = some var →
      Mimics assignment base site op first (moved var)) :
    Promotes assignment base site op first := by
  cases input : assignment.var? (valueAt first 0) with
  | none =>
      refine promotes_self fresh (by simpa [input] using new) plain ?_ (by simp [pushes])
      intro place inside
      rw [pops, Nat.lt_one_iff] at inside
      rw [inside, input]
  | some var =>
      refine ⟨moved var, by simpa [input] using new, fun other member => ?_, mimics var input⟩
      exact (vars var other member).imp_right fun same => ⟨_, same ▸ input⟩

theorem promotes_pop (fresh : assignment.Fresh base)
    (known : assignment.use? site = some (ofOp site .pop first)) :
    Promotes assignment base site .pop first := by
  have new : assignment.op site .pop =
      .ok ((assignment.var? (valueAt first 0)).elim .pop fun _ => .nop) := by
    cases input : assignment.var? (valueAt first 0) <;>
      simp [Assignment.op, known, inputs_ofOp, Op.pops, topmost, top_eq_valueAt, input]
  refine promotes_operand fresh new rfl rfl rfl
    (by simp [Op.vars, Op.ownVariable, Op.expressions]) ?_
  intro var input entries state twin meets split
  exact ⟨rfl, entries.drop 1, List.map_drop ..,
    split.drop_moved fresh (meets.moved (by simp [Op.pops, input]))⟩

theorem promotes_varSet {target : VarId} (fresh : assignment.Fresh base)
    (known : assignment.use? site = some (ofOp site (.varSet target) first)) :
    Promotes assignment base site (.varSet target) first := by
  have new : assignment.op site (.varSet target) =
      .ok ((assignment.var? (valueAt first 0)).elim (.varSet target) fun var =>
        .assign target (.var var)) := by
    simp [Assignment.op, known, inputs_ofOp, Op.pops, topmost, top_eq_valueAt]
  refine promotes_operand fresh new rfl rfl rfl
    (by simp [Op.vars, Op.ownVariable, Op.expressions, Expr.vars]) ?_
  intro var input entries state twin meets split
  have own := meets.own target (by simp [Op.vars, Op.ownVariable])
  refine ⟨rfl, entries.drop 1, List.map_drop .., ?_⟩
  simp only [Op.run, Expr.eval, State.env, meets.var_eq_operand split fresh Nat.one_pos input]
  exact (split.assign_own fresh own _).drop_moved fresh (meets.moved (by simp [Op.pops, input]))

theorem promotes_output {format : Format} (fresh : assignment.Fresh base)
    (known : assignment.use? site = some (ofOp site (.output format) first)) :
    Promotes assignment base site (.output format) first := by
  have new : assignment.op site (.output format) =
      .ok ((assignment.var? (valueAt first 0)).elim (.output format) fun var =>
        .print (.var var) format) := by
    simp [Assignment.op, known, inputs_ofOp, Op.pops, topmost, top_eq_valueAt]
  refine promotes_operand fresh new rfl rfl rfl
    (by simp [Op.vars, Op.ownVariable, Op.expressions, Expr.vars]) ?_
  intro var input entries state twin meets split
  refine ⟨?_, entries.drop 1, List.map_drop ..,
    split.drop_moved fresh (meets.moved (by simp [Op.pops, input]))⟩
  simp only [Op.events, Expr.eval, State.env, meets.var_eq_operand split fresh Nat.one_pos input]

theorem promotes_swap (fresh : assignment.Fresh base)
    (known : assignment.use? site = some (ofOp site .swap first))
    (bound : AllOrNone assignment (topmost 2 first)) :
    Promotes assignment base site .swap first := by
  rcases bound with stays | leaves
  · refine promotes_self fresh ?_ rfl (forall_mem_topmost.mp stays) (fun _ => .inr rfl)
    simp only [Assignment.op, known, inputs_ofOp, Op.pops]
    rw [Assignment.allOrNone_of_none (by simp [topmost]) stays]
    rfl
  · rcases Assignment.exists_vars leaves with ⟨vars, moved⟩
    refine ⟨.nop, ?_, by simp [Op.vars, Op.ownVariable, Op.expressions], ?_⟩
    · simp only [Assignment.op, known, inputs_ofOp, Op.pops, Assignment.allOrNone_of_some moved]
      rfl
    · intro entries state twin meets split
      have operands := meets.moved (forall_mem_topmost.mp leaves)
      rcases Option.isSome_iff_exists.mp (operands 0 Nat.two_pos) with ⟨right, rightTag⟩
      rcases Option.isSome_iff_exists.mp (operands 1 Nat.one_lt_two) with ⟨left, leftTag⟩
      have exchanged :=
        ((split.drop_moved fresh operands).push_moved rightTag
          (split.var_eq_operand fresh rightTag)).push_moved leftTag
          (split.var_eq_operand fresh leftTag)
      refine ⟨rfl, _ :: _ :: entries.drop 2, ?_, by simpa [Op.run, Op.pops] using exchanged⟩
      simp [tagsAfterOp, List.map_drop]

theorem promotes_dup (fresh : assignment.Fresh base)
    (known : assignment.use? site = some (ofOp site .dup first))
    (bound : AllOrNone assignment [valueAt first 0, .pushed site]) :
    Promotes assignment base site .dup first := by
  rcases bound with stays | leaves
  · have input := stays (valueAt first 0) (by simp)
    have result := stays (.pushed site) (by simp)
    refine promotes_self fresh ?_ rfl (by simpa [Op.pops] using input) (fun _ => .inl result)
    simp [Assignment.op, known, inputs_ofOp, Op.pops, topmost, top_eq_valueAt, input, result]
  · rcases Option.isSome_iff_exists.mp (leaves (valueAt first 0) (by simp)) with ⟨source, input⟩
    rcases Option.isSome_iff_exists.mp (leaves (.pushed site) (by simp)) with ⟨copy, result⟩
    refine ⟨.assign copy (.var source), ?_, ?_, ?_⟩
    · simp [Assignment.op, known, inputs_ofOp, Op.pops, topmost, top_eq_valueAt, input, result]
    · intro other member
      have cases : other = copy ∨ other = source := by
        simpa [Op.vars, Op.ownVariable, Op.expressions, Expr.vars] using member
      rcases cases with rfl | rfl
      · exact .inr ⟨_, result⟩
      · exact .inr ⟨_, input⟩
    · intro entries state twin meets split
      have tag := (meets.inputs 0 Nat.one_pos).symm.trans input
      have value := split.var_eq_operand fresh tag
      have kept :=
        (split.drop_moved fresh (meets.moved (by simp [Op.pops, input]))).push_moved tag value
      have tags : Split.tags ((valueAt (Split.tags entries) 0, state.operand 0) :: entries.drop 1) =
          valueAt (Split.tags entries) 0 :: (Split.tags entries).drop 1 := by
        simp
      have copied := kept.push_new fresh result (tags ▸ meets.distinct) (state.operand 0)
      refine ⟨rfl, _ :: _ :: entries.drop 1, ?_,
        by simpa [Op.run, Op.pops, Expr.eval, State.env, value] using copied⟩
      simp [tagsAfterOp]

/-- An op that computes with operands on the stack stays. -/
theorem promotes_compute_self {op : Op} (fresh : assignment.Fresh base)
    (computes : assignment.op site op = assignment.compute site op (ofOp site op first))
    (plain : op.expressions = []) (pops : op.pops ≠ 0)
    (stays : ∀ value ∈ topmost op.pops first, assignment.var? value = none)
    (result : assignment.var? (.pushed site) = none) : Promotes assignment base site op first := by
  refine promotes_self fresh ?_ plain (forall_mem_topmost.mp stays) fun _ => .inl result
  have nonempty : topmost op.pops first ≠ [] :=
    fun empty => pops (by simpa using congrArg List.length empty)
  rw [computes, Assignment.compute, inputs_ofOp, Assignment.allOrNone_of_none nonempty stays,
    result]
  rfl

/-- The expression for the result of an op reads just the variables of the operands, and its value
is what the op pushes. -/
theorem Assignment.result?_spec {op : Op} {vars : List VarId} {expr : Expr}
    (computed : Assignment.result? op vars = some expr) :
    (∀ var ∈ expr.vars, var ∈ vars) ∧
      ∀ {state twin : State}, twin.grid = state.grid →
        vars.map twin.vars = (List.range op.pops).map state.operand →
        op.run state = state.replace op.pops [expr.eval twin.env] := by
  unfold Assignment.result? at computed
  split at computed
  · rename_i operator rhs lhs
    cases computed
    refine ⟨fun var member => ?_, fun _ values => ?_⟩
    · have cases := Expr.mem_vars_of_mem_combine member
      simpa [Expr.vars, or_comm] using cases
    · obtain ⟨right, left⟩ := by simpa [Op.pops, List.range_succ] using values
      simp only [Expr.eval_combine, Expr.eval, State.env, right, left]
      rfl
  · rename_i operand
    cases computed
    refine ⟨fun var member => Expr.vars_negation_subset _ member, fun _ values => ?_⟩
    have value := by simpa [Op.pops, List.range_succ] using values
    simp only [Expr.eval_negation, Expr.eval, State.env, value]
    rfl
  · rename_i y x
    cases computed
    refine ⟨by simp [Expr.vars, or_comm], fun grid values => ?_⟩
    obtain ⟨row, column⟩ := by simpa [Op.pops, List.range_succ] using values
    simp only [Expr.eval, State.env, row, column, grid]
    rfl
  · cases computed

theorem Assignment.compute_of_result? {op : Op} {use : Use} {vars : List VarId} {var : VarId}
    {expr : Expr} (moved : use.inputs.map assignment.var? = vars.map some)
    (result : assignment.var? (.pushed site) = some var)
    (computed : Assignment.result? op vars = some expr) :
    assignment.compute site op use = .ok (.assign var expr) := by
  rw [compute, allOrNone_of_some moved, result]
  unfold Assignment.result? at computed
  split at computed <;> cases computed <;> rfl

/-- An op that computes a value stays with its operands on the stack, or else it becomes an
assignment of what it computes from their variables. -/
theorem promotes_compute {op : Op} (fresh : assignment.Fresh base)
    (computes : assignment.op site op = assignment.compute site op (ofOp site op first))
    (plain : op.expressions = []) (pops : op.pops ≠ 0)
    (pushes : ∀ tags, tagsAfterOp site op tags = .pushed site :: tags.drop op.pops)
    (silent : ∀ state, op.events state = [])
    (defined : ∀ vars : List VarId, vars.length = op.pops →
      ∃ expr, Assignment.result? op vars = some expr)
    (bound : AllOrNone assignment (topmost op.pops first ++ [.pushed site])) :
    Promotes assignment base site op first := by
  rcases bound with stays | leaves
  · exact promotes_compute_self fresh computes plain pops
      (fun value member => stays value (List.mem_append_left _ member)) (stays _ (by simp))
  · have operands : ∀ value ∈ topmost op.pops first, (assignment.var? value).isSome = true :=
      fun value member => leaves value (List.mem_append_left _ member)
    rcases Assignment.exists_vars operands with ⟨vars, moved⟩
    rcases Option.isSome_iff_exists.mp (leaves (.pushed site) (by simp)) with ⟨var, result⟩
    rcases defined vars (by simpa using (congrArg List.length moved).symm) with ⟨expr, computed⟩
    rcases Assignment.result?_spec computed with ⟨reads, value⟩
    have new : assignment.op site op = .ok (.assign var expr) := by
      rw [computes]
      exact Assignment.compute_of_result? (by rw [inputs_ofOp, moved]) result computed
    refine promotes_assign fresh new result (forall_mem_topmost.mp operands) pushes silent
      (fun other member => ?_) ?_
    · have listed : some other ∈ (topmost op.pops first).map assignment.var? :=
        moved ▸ List.mem_map_of_mem (reads other member)
      rcases List.mem_map.mp listed with ⟨operand, -, found⟩
      exact .inr ⟨operand, found⟩
    · intro entries state twin meets split
      exact value split.grid (meets.map_vars split fresh moved)

theorem promotes_set (fresh : assignment.Fresh base)
    (known : assignment.use? site = some (ofOp site .set first))
    (bound : AllOrNone assignment (topmost 3 first))
    (unpushed : assignment.var? (.pushed site) = none) :
    Promotes assignment base site .set first := by
  have computes : assignment.op site .set =
      assignment.compute site .set (ofOp site .set first) := by
    simp only [Assignment.op, known]
  rcases bound with stays | leaves
  · exact promotes_compute_self fresh computes rfl (by simp [Op.pops]) stays unpushed
  · rcases Assignment.exists_vars leaves with ⟨vars, moved⟩
    have three : vars.length = 3 := by simpa using (congrArg List.length moved).symm
    rcases List.length_eq_three.mp three with ⟨y, x, stored, rfl⟩
    refine ⟨.store (.var x) (.var y) (.var stored), ?_, fun other member => ?_, ?_⟩
    · have inputs : (ofOp site .set first).inputs.map assignment.var? =
          [y, x, stored].map some := by
        rw [inputs_ofOp]
        exact moved
      rw [computes, Assignment.compute, Assignment.allOrNone_of_some inputs]
      rfl
    · have cases : other ∈ [y, x, stored] := by
        simpa [Op.vars, Op.ownVariable, Op.expressions, Expr.vars, or_left_comm] using member
      have listed : some other ∈ (topmost 3 first).map assignment.var? :=
        moved ▸ List.mem_map_of_mem cases
      rcases List.mem_map.mp listed with ⟨operand, -, found⟩
      exact .inr ⟨operand, found⟩
    · intro entries state twin meets split
      obtain ⟨row, column, value⟩ := by
        simpa [Op.pops, List.range_succ] using meets.map_vars split fresh moved
      refine ⟨rfl, entries.drop 3, List.map_drop .., ?_⟩
      simp only [Op.run, Expr.eval, State.env, row, column, value]
      exact (split.store _ _ _).drop_moved fresh (meets.moved (forall_mem_topmost.mp leaves))

theorem promotes_store {x y value : Expr} (fresh : assignment.Fresh base)
    (known : assignment.use? site = some (ofOp site (.store x y value) first)) :
    Promotes assignment base site (.store x y value) first := by
  apply promotes_mapExpressions (by simp [Assignment.op, known, Op.mapExpressions])
  intro entries state twin meets split
  have same := split.eval_expressions fresh meets
  refine ⟨rfl, entries, rfl, ?_⟩
  simp only [Op.mapExpressions, Op.run, same x (by simp [Op.expressions]),
    same y (by simp [Op.expressions]), same value (by simp [Op.expressions])]
  exact split.store _ _ _

theorem promotes_assignment {target : VarId} {value : Expr} (fresh : assignment.Fresh base)
    (known : assignment.use? site = some (ofOp site (.assign target value) first)) :
    Promotes assignment base site (.assign target value) first := by
  apply promotes_mapExpressions (by simp [Assignment.op, known, Op.mapExpressions])
  intro entries state twin meets split
  refine ⟨rfl, entries, rfl, ?_⟩
  simp only [Op.mapExpressions, Op.run,
    split.eval_expressions fresh meets value (by simp [Op.expressions])]
  exact split.assign_own fresh (meets.own target (by simp [Op.vars, Op.ownVariable])) _

theorem promotes_print {value : Expr} {format : Format} (fresh : assignment.Fresh base)
    (known : assignment.use? site = some (ofOp site (.print value format) first)) :
    Promotes assignment base site (.print value format) first := by
  apply promotes_mapExpressions (by simp [Assignment.op, known, Op.mapExpressions])
  intro entries state twin meets split
  refine ⟨?_, entries, rfl, split⟩
  simp only [Op.mapExpressions, Op.events,
    split.eval_expressions fresh meets value (by simp [Op.expressions])]

/-- Every op is replaced by one that mimics it. -/
theorem op_promotes {op : Op} (fresh : assignment.Fresh base)
    (known : assignment.use? site = some (ofOp site op first))
    (bound : AllOrNone assignment (ofOp site op first).bound)
    (unpushed : op.pushes = 0 → assignment.var? (.pushed site) = none) :
    Promotes assignment base site op first := by
  cases op with
  | nop | printText text | inputVar var format =>
      exact promotes_self fresh (by simp [Assignment.op, known]) rfl (by simp [Op.pops])
        (by simp [Op.pushes])
  | push value => exact promotes_push fresh known
  | pop => exact promotes_pop fresh known
  | dup => exact promotes_dup fresh known (by simpa [ofOp, top_eq_valueAt] using bound)
  | swap => exact promotes_swap fresh known bound
  | math operator | get =>
      refine promotes_compute fresh (by simp only [Assignment.op, known]) rfl (by simp [Op.pops])
        (fun _ => rfl) (fun _ => rfl) (fun vars count => ?_) bound
      rcases List.length_eq_two.mp count with ⟨right, left, rfl⟩
      exact ⟨_, rfl⟩
  | not =>
      refine promotes_compute fresh (by simp only [Assignment.op, known]) rfl (by simp [Op.pops])
        (fun _ => rfl) (fun _ => rfl) (fun vars count => ?_) bound
      rcases List.length_eq_one_iff.mp count with ⟨operand, rfl⟩
      exact ⟨_, rfl⟩
  | set =>
      exact promotes_set fresh known (by simpa [ofOp, Op.pops, Op.pushes] using bound)
        (unpushed rfl)
  | load x y => exact promotes_load fresh known
  | store x y value => exact promotes_store fresh known
  | varGet var => exact promotes_varGet fresh known
  | varSet var => exact promotes_varSet fresh known
  | assign var value => exact promotes_assignment fresh known
  | output format => exact promotes_output fresh known
  | print value format => exact promotes_print fresh known
  | input format => exact promotes_input fresh known

end

end Promotion

end StackFlow
