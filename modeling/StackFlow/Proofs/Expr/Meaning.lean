import Mathlib
import StackFlow.Expr.Eval
import StackFlow.Expr.Substitute

/-!
# The meaning of built expressions

Building an expression simplifies it, and here it is shown that this keeps its
value in every environment. The heart is the linear form: `linear?` reads a sum
as a term plus an offset, and `toExpr` and `compare` write the changed form
back, all of it modulo the size of a word. Factors are collected by `scale`.

A substitution rebuilds the tree above every replaced part, so its value is the
value that the tree has when the replaced parts stand for the values of their
replacements.
-/

namespace StackFlow

namespace Operator

/-- The value of `lhs op rhs` over the integers, before it is cut down to a word. -/
def exact (op : Operator) (lhs rhs : Int) : Int :=
  match op with
  | .add => lhs + rhs
  | .sub => lhs - rhs
  | .mul => lhs * rhs
  | .div => if rhs = 0 then 0 else lhs.tdiv rhs
  | .mod => if rhs = 0 then 0 else lhs.tmod rhs
  | .gt => if lhs > rhs then 1 else 0
  | .lt => if lhs < rhs then 1 else 0
  | .ge => if lhs ≥ rhs then 1 else 0
  | .le => if lhs ≤ rhs then 1 else 0
  | .eq => if lhs = rhs then 1 else 0
  | .ne => if lhs ≠ rhs then 1 else 0

theorem toInt_eq_zero_iff (word : Word) : word.toInt = 0 ↔ word = 0 := by
  rw [← Int64.toInt_zero, Int64.toInt_inj]

/-- An operator computes the exact value and then wraps. -/
theorem evaluate_eq_ofInt_exact (op : Operator) (lhs rhs : Word) :
    op.evaluate lhs rhs = Int64.ofInt (op.exact lhs.toInt rhs.toInt) := by
  cases op with
  | add => simp [evaluate, exact, Int64.ofInt_add]
  | sub => simp [evaluate, exact, Int64.ofInt_sub]
  | mul => simp [evaluate, exact, Int64.ofInt_mul]
  | div =>
      simp only [evaluate, exact, toInt_eq_zero_iff]
      split
      · rfl
      · rw [← Int64.toInt_inj, Int64.toInt_div, Int64.toInt_ofInt]
  | mod =>
      simp only [evaluate, exact, toInt_eq_zero_iff]
      split
      · rfl
      · rw [← Int64.toInt_mod, Int64.ofInt_toInt]
  | gt => simp only [evaluate, exact, gt_iff_lt, Int64.lt_iff_toInt_lt]; split <;> rfl
  | lt => simp only [evaluate, exact, Int64.lt_iff_toInt_lt]; split <;> rfl
  | ge => simp only [evaluate, exact, ge_iff_le, Int64.le_iff_toInt_le]; split <;> rfl
  | le => simp only [evaluate, exact, Int64.le_iff_toInt_le]; split <;> rfl
  | eq => simp only [evaluate, exact, Int64.toInt_inj]; split <;> rfl
  | ne => simp only [evaluate, exact, ne_eq, Int64.toInt_inj]; split <;> rfl

theorem evaluate_eq_zero_or_one {op : Operator} (relation : op.isRelation = true) (lhs rhs : Word) :
    op.evaluate lhs rhs = 0 ∨ op.evaluate lhs rhs = 1 := by
  cases op <;> simp only [isRelation, Bool.false_eq_true] at relation <;>
    simp only [evaluate] <;> split <;> simp

theorem evaluate_negated {op opposite : Operator} (negated : op.negated? = some opposite)
    (lhs rhs : Word) : opposite.evaluate lhs rhs = if op.evaluate lhs rhs = 0 then 1 else 0 := by
  cases op <;> simp only [negated?, Option.some.injEq, reduceCtorEq] at negated <;>
    subst negated <;>
    simp only [evaluate, gt_iff_lt, ge_iff_le, Int64.lt_iff_toInt_lt, Int64.le_iff_toInt_le] <;>
    grind

end Operator

namespace Expr

variable {env : Env} {expr term : Expr} {form : Linear}

theorem eq_const_of_constant? {value : Word} (found : expr.constant? = some value) :
    expr = .const value := by
  cases expr <;> simp_all [constant?]

/-- The value of a linear form. -/
def Linear.eval (env : Env) (form : Linear) : Word :=
  if form.negated then form.offset - form.term.eval env else form.term.eval env + form.offset

theorem eval_of_linear? (found : expr.linear? = some form) : expr.eval env = form.eval env := by
  unfold linear? at found
  split at found
  · split at found <;> simp only [Option.some.injEq, reduceCtorEq] at found <;> subst found
    · rename_i right
      simp [eval, Linear.eval, Operator.evaluate, eq_const_of_constant? right]
    · rename_i left _
      simp [eval, Linear.eval, Operator.evaluate, eq_const_of_constant? left, Int64.add_comm]
  · split at found <;> simp only [Option.some.injEq, reduceCtorEq] at found <;> subst found
    · rename_i right
      simp [eval, Linear.eval, Operator.evaluate, eq_const_of_constant? right, Int64.sub_eq_add_neg]
    · rename_i left _
      simp [eval, Linear.eval, Operator.evaluate, eq_const_of_constant? left]
  · simp at found

theorem eval_toExpr (env : Env) (form : Linear) : form.toExpr.eval env = form.eval env := by
  unfold Linear.toExpr Linear.eval
  split
  · rfl
  · split
    · rename_i zero
      simp [zero]
    · split
      · simp only [eval, Operator.evaluate]
        grind
      · rfl

theorem eval_compare {op : Operator} (equality : op = .eq ∨ op = .ne) (env : Env) (form : Linear)
    (literal : Word) :
    (form.compare op literal).eval env = op.evaluate (form.eval env) literal := by
  -- Moving an offset across an equation is a bijection of words, whatever wraps on the way.
  have moved :
      (form.term.eval env =
        if form.negated then form.offset - literal else literal - form.offset) ↔
      form.eval env = literal := by
    unfold Linear.eval
    split <;> grind
  rcases equality with rfl | rfl <;>
    simp only [Linear.compare, eval, Operator.evaluate, ne_eq, moved]

theorem evaluate_comm {op : Operator} (equality : op = .eq ∨ op = .ne) (lhs rhs : Word) :
    op.evaluate lhs rhs = op.evaluate rhs lhs := by
  rcases equality with rfl | rfl <;> simp only [Operator.evaluate, eq_comm, ne_eq]

theorem eval_scale (env : Env) (expr : Expr) (factor : Word) :
    (expr.scale factor).eval env = expr.eval env * factor := by
  fun_induction scale expr factor with
  | case1 value factor => simp [eval]
  | case2 lhs rhs => simp
  | case3 factor lhs rhs => simp [eval]
  | case4 lhs rhs factor _ _ inner right _ ih =>
      rw [ih]
      simp only [eval, Operator.evaluate, eq_const_of_constant? right]
      grind
  | case5 lhs rhs factor _ _ inner _ left ih =>
      rw [ih]
      simp only [eval, Operator.evaluate, eq_const_of_constant? left]
      grind
  | case6 lhs rhs factor => simp [eval, Operator.evaluate]
  | case7 expr => simp
  | case8 expr => simp [eval]
  | case9 expr factor => simp [eval, Operator.evaluate]

theorem eval_of_scaled? {factor : Word} (found : expr.scaled? = some (term, factor)) :
    expr.eval env = term.eval env * factor := by
  unfold scaled? at found
  split at found
  · split at found <;> simp only [Option.some.injEq, Prod.mk.injEq, reduceCtorEq] at found
    · rename_i right
      rcases found with ⟨rfl, rfl⟩
      simp [eval, Operator.evaluate, eq_const_of_constant? right]
    · rename_i left _
      rcases found with ⟨rfl, rfl⟩
      simp [eval, Operator.evaluate, eq_const_of_constant? left, Int64.mul_comm]
  · simp at found

theorem eval_combineRight (env : Env) (op : Operator) (expr : Expr) (literal : Word) :
    (expr.combineRight op literal).eval env = op.evaluate (expr.eval env) literal := by
  cases op with
  | add | sub =>
      simp only [combineRight]
      split
      · simp_all [Operator.evaluate]
      · split
        · rename_i form found
          rw [eval_toExpr, eval_of_linear? found]
          simp only [Linear.eval, Operator.evaluate]
          split <;> grind
        · rfl
  | mul => simp only [combineRight, eval_scale, Operator.evaluate]
  | div | mod =>
      simp only [combineRight]
      split
      · simp_all [Operator.evaluate, eval]
      · rfl
  | eq | ne =>
      simp only [combineRight]
      split
      · rename_i form found
        rw [eval_compare (by simp), eval_of_linear? found]
      · rfl
  | gt | lt | ge | le => rfl

theorem eval_combineLeft (env : Env) (op : Operator) (literal : Word) (expr : Expr) :
    (expr.combineLeft op literal).eval env = op.evaluate literal (expr.eval env) := by
  cases op with
  | add =>
      simp only [combineLeft]
      split
      · simp_all [Operator.evaluate]
      · split
        · rename_i form found
          rw [eval_toExpr, eval_of_linear? found]
          simp only [Linear.eval, Operator.evaluate]
          split <;> grind
        · rfl
  | sub =>
      simp only [combineLeft]
      split
      · rename_i form found
        rw [eval_toExpr, eval_of_linear? found]
        simp only [Linear.eval, Operator.evaluate]
        cases form.negated <;>
          simp only [Bool.not_true, Bool.not_false, if_true, Bool.false_eq_true, if_false] <;>
          grind
      · rfl
  | mul =>
      simp only [combineLeft]
      split
      · simp_all [Operator.evaluate]
      · split
        · simp_all [Operator.evaluate, eval]
        · split
          · rename_i term factor found
            rw [eval_scale, eval_of_scaled? found]
            simp only [Operator.evaluate]
            grind
          · rfl
  | div | mod =>
      simp only [combineLeft]
      split
      · simp_all [Operator.evaluate, eval]
      · rfl
  | eq | ne =>
      simp only [combineLeft]
      split
      · rename_i form found
        rw [eval_compare (by simp), evaluate_comm (by simp), eval_of_linear? found]
      · rfl
  | gt | lt | ge | le => rfl

@[simp]
theorem eval_combine (env : Env) (op : Operator) (lhs rhs : Expr) :
    (combine op lhs rhs).eval env = op.evaluate (lhs.eval env) (rhs.eval env) := by
  unfold combine
  split
  · rename_i left right
    simp [eval, eq_const_of_constant? left, eq_const_of_constant? right]
  · rename_i right
    rw [eval_combineRight, eq_const_of_constant? right, eval]
  · rename_i left _
    rw [eval_combineLeft, eq_const_of_constant? left, eval]
  · rfl

theorem eval_of_isBoolean (boolean : expr.isBoolean = true) (env : Env) :
    expr.eval env = 0 ∨ expr.eval env = 1 := by
  cases expr with
  | const value => simpa [isBoolean, eval] using boolean
  | binary op lhs rhs => exact Operator.evaluate_eq_zero_or_one boolean _ _
  | not operand => simp only [eval]; split <;> simp
  | boolCast operand => simp only [eval]; split <;> simp
  | var id | peek | memory x y => simp [isBoolean] at boolean

@[simp]
theorem eval_truth (env : Env) (expr : Expr) :
    expr.truth.eval env = if expr.eval env = 0 then 0 else 1 := by
  unfold truth
  split
  · rename_i value found
    simp [eval, eq_const_of_constant? found]
  · split
    · rename_i boolean
      rcases eval_of_isBoolean boolean env with zero | one
      · simp [zero]
      · simp [one]
    · rfl

@[simp]
theorem eval_negation (env : Env) (expr : Expr) :
    expr.negation.eval env = if expr.eval env = 0 then 1 else 0 := by
  induction expr with
  | const value => rfl
  | not operand _ =>
      simp only [negation, eval_truth, eval]
      split <;> simp
  | boolCast operand ih =>
      simp only [negation, ih, eval]
      split <;> simp
  | binary op lhs rhs _ _ =>
      simp only [negation]
      split
      · rename_i opposite negated
        exact Operator.evaluate_negated negated _ _
      · rfl
  | var id => rfl
  | peek => rfl
  | memory x y _ _ => rfl

section Sources

variable {var : VarId} {lhs rhs source : Expr} {op : Operator}

/-- The variables, the top of the stack and the grid cells, once for each place where the expression
reads them. -/
def sources : Expr → List Expr
  | .const _ => []
  | .var id => [.var id]
  | .peek => [.peek]
  | .binary _ lhs rhs => lhs.sources ++ rhs.sources
  | .not operand | .boolCast operand => operand.sources
  | .memory x y => .memory x y :: (x.sources ++ y.sources)

theorem mem_vars_iff : var ∈ expr.vars ↔ .var var ∈ expr.sources := by
  induction expr with
  | const value | var id | peek => simp [vars, sources]
  | not operand ih | boolCast operand ih => exact ih
  | binary op lhs rhs left right => simp [vars, sources, left, right]
  | memory x y left right => simp [vars, sources, left, right]

theorem readsStack_iff : expr.readsStack = true ↔ .peek ∈ expr.sources := by
  unfold readsStack
  induction expr with
  | const value | var id | peek => simp [any, isPeek, sources]
  | not operand ih | boolCast operand ih => simpa [any, isPeek, sources] using ih
  | binary op lhs rhs left right => simp [any, isPeek, sources, left, right]
  | memory x y left right => simp [any, isPeek, sources, left, right]

theorem sources_of_linear? (found : expr.linear? = some form) :
    form.term.sources ⊆ expr.sources := by
  unfold linear? at found
  split at found
  · split at found <;> simp only [Option.some.injEq, reduceCtorEq] at found <;> subst found <;>
      simp [sources]
  · split at found <;> simp only [Option.some.injEq, reduceCtorEq] at found <;> subst found <;>
      simp [sources]
  · simp at found

theorem sources_toExpr (form : Linear) : form.toExpr.sources = form.term.sources := by
  unfold Linear.toExpr
  split_ifs <;> simp [sources]

theorem sources_scale_subset (expr : Expr) (factor : Word) :
    (expr.scale factor).sources ⊆ expr.sources := by
  fun_induction scale expr factor with
  | case1 | case2 | case3 | case6 | case7 | case8 | case9 => simp [sources]
  | case4 lhs rhs factor _ _ inner _ _ ih => exact List.Subset.trans ih (by simp [sources])
  | case5 lhs rhs factor _ _ inner _ _ ih => exact List.Subset.trans ih (by simp [sources])

theorem sources_of_scaled? {factor : Word} (found : expr.scaled? = some (term, factor)) :
    term.sources ⊆ expr.sources := by
  unfold scaled? at found
  split at found
  · split at found <;> simp only [Option.some.injEq, Prod.mk.injEq, reduceCtorEq] at found <;>
      rcases found with ⟨rfl, rfl⟩ <;> simp [sources]
  · simp at found

theorem sources_combineRight_subset (op : Operator) (expr : Expr) (literal : Word) :
    (expr.combineRight op literal).sources ⊆ expr.sources := by
  cases op with
  | add | sub =>
      simp only [combineRight]
      split
      · exact List.Subset.refl _
      · split
        · rename_i form found
          simpa [sources_toExpr] using sources_of_linear? found
        · simp [sources]
  | mul => exact sources_scale_subset expr literal
  | div | mod => simp only [combineRight]; split <;> simp [sources]
  | eq | ne =>
      simp only [combineRight]
      split
      · rename_i form found
        simpa [Linear.compare, sources] using sources_of_linear? found
      · simp [sources]
  | gt | lt | ge | le => simp [combineRight, sources]

theorem sources_combineLeft_subset (op : Operator) (literal : Word) (expr : Expr) :
    (expr.combineLeft op literal).sources ⊆ expr.sources := by
  cases op with
  | add =>
      simp only [combineLeft]
      split
      · exact List.Subset.refl _
      · split
        · rename_i form found
          simpa [sources_toExpr] using sources_of_linear? found
        · simp [sources]
  | sub =>
      simp only [combineLeft]
      split
      · rename_i form found
        simpa [sources_toExpr] using sources_of_linear? found
      · simp [sources]
  | mul =>
      simp only [combineLeft]
      split
      · exact List.Subset.refl _
      · split
        · simp [sources]
        · split
          · rename_i term factor found
            exact List.Subset.trans (sources_scale_subset term _) (sources_of_scaled? found)
          · simp [sources]
  | div | mod => simp only [combineLeft]; split <;> simp [sources]
  | eq | ne =>
      simp only [combineLeft]
      split
      · rename_i form found
        simpa [Linear.compare, sources] using sources_of_linear? found
      · simp [sources]
  | gt | lt | ge | le => simp [combineLeft, sources]

theorem mem_sources_of_mem_combine (member : source ∈ (combine op lhs rhs).sources) :
    source ∈ lhs.sources ∨ source ∈ rhs.sources := by
  unfold combine at member
  split at member
  · simp [sources] at member
  · exact .inl (sources_combineRight_subset op lhs _ member)
  · exact .inr (sources_combineLeft_subset op _ rhs member)
  · simpa [sources] using member

theorem sources_truth_subset (expr : Expr) : expr.truth.sources ⊆ expr.sources := by
  unfold truth
  split
  · simp [sources]
  · split <;> simp [sources]

theorem sources_negation_subset (expr : Expr) : expr.negation.sources ⊆ expr.sources := by
  induction expr with
  | const value => simp [negation, sources]
  | not operand _ => simpa [negation, sources] using sources_truth_subset operand
  | boolCast operand ih => simpa [negation, sources] using ih
  | binary op lhs rhs _ _ => simp only [negation]; split <;> simp [sources]
  | var id | peek | memory x y => simp [negation, sources]

theorem mem_vars_of_mem_combine (member : var ∈ (combine op lhs rhs).vars) :
    var ∈ lhs.vars ∨ var ∈ rhs.vars := by
  simp only [mem_vars_iff] at member ⊢
  exact mem_sources_of_mem_combine member

theorem vars_negation_subset (expr : Expr) : expr.negation.vars ⊆ expr.vars := by
  intro var
  simp only [mem_vars_iff]
  exact fun member => sources_negation_subset expr member

theorem readsStack_of_combine (reads : (combine op lhs rhs).readsStack = true) :
    lhs.readsStack = true ∨ rhs.readsStack = true := by
  simp only [readsStack_iff] at reads ⊢
  exact mem_sources_of_mem_combine reads

theorem readsStack_of_negation (reads : expr.negation.readsStack = true) :
    expr.readsStack = true := by
  rw [readsStack_iff] at reads ⊢
  exact sources_negation_subset expr reads

theorem mem_memoryReads_iff {access : MemoryAccess} :
    access ∈ expr.memoryReads ↔ ∃ x y, .memory x y ∈ expr.sources ∧
      access = .ofCoordinates x y := by
  induction expr with
  | const value | var id | peek => simp [memoryReads, sources]
  | not operand ih | boolCast operand ih => exact ih
  | binary op lhs rhs left right =>
      simp only [memoryReads, sources, List.mem_append, left, right, or_and_right, exists_or]
  | memory x y left right =>
      simp [memoryReads, sources, left, right, or_and_right, exists_or, and_assoc]

theorem mem_memoryReads_of_mem_combine {access : MemoryAccess}
    (member : access ∈ (combine op lhs rhs).memoryReads) :
    access ∈ lhs.memoryReads ∨ access ∈ rhs.memoryReads := by
  simp only [mem_memoryReads_iff] at member ⊢
  rcases member with ⟨x, y, read, same⟩
  exact (mem_sources_of_mem_combine read).imp (⟨x, y, ·, same⟩) (⟨x, y, ·, same⟩)

theorem memoryReads_negation_subset (expr : Expr) :
    expr.negation.memoryReads ⊆ expr.memoryReads := by
  intro access
  simp only [mem_memoryReads_iff]
  rintro ⟨x, y, read, same⟩
  exact ⟨x, y, sources_negation_subset expr read, same⟩

end Sources

section Substitution

variable {pred : Expr → Bool} {replace : Expr → Expr}

/-- The value of an expression in which every outermost node that satisfies the
predicate stands for a given value. -/
def evalWith (pred : Expr → Bool) (value : Expr → Word) (env : Env) (expr : Expr) : Word :=
  if pred expr then value expr
  else
    match expr with
    | .const value => value
    | .var id => env.vars id
    | .binary op lhs rhs => op.evaluate (lhs.evalWith pred value env) (rhs.evalWith pred value env)
    | .not operand => if operand.evalWith pred value env = 0 then 1 else 0
    | .boolCast operand => if operand.evalWith pred value env = 0 then 0 else 1
    | .peek => env.top
    | .memory x y => env.cell (x.evalWith pred value env) (y.evalWith pred value env)

theorem evalWith_of_pred {value : Expr → Word} (holds : pred expr = true) :
    expr.evalWith pred value env = value expr := by
  unfold evalWith
  rw [if_pos holds]

/-- Induction down to the outermost nodes that satisfy a predicate. -/
@[elab_as_elim]
theorem outermost_induction (pred : Expr → Bool) {motive : Expr → Prop} (expr : Expr)
    (outermost : ∀ part, pred part = true → motive part)
    (const : ∀ value, pred (.const value) = false → motive (.const value))
    (var : ∀ id, pred (.var id) = false → motive (.var id))
    (peek : pred .peek = false → motive .peek)
    (binary : ∀ op lhs rhs, pred (.binary op lhs rhs) = false → motive lhs → motive rhs →
      motive (.binary op lhs rhs))
    (not : ∀ operand, pred (.not operand) = false → motive operand → motive (.not operand))
    (boolCast : ∀ operand, pred (.boolCast operand) = false → motive operand →
      motive (.boolCast operand))
    (memory : ∀ x y, pred (.memory x y) = false → motive x → motive y → motive (.memory x y)) :
    motive expr := by
  have either {part : Expr} (inner : pred part = false → motive part) : motive part := by
    cases holds : pred part with
    | true => exact outermost part holds
    | false => exact inner holds
  induction expr with
  | const value => exact either (const value)
  | var id => exact either (var id)
  | peek => exact either peek
  | binary op lhs rhs left right => exact either fun fails => binary op lhs rhs fails left right
  | not operand ih => exact either fun fails => not operand fails ih
  | boolCast operand ih => exact either fun fails => boolCast operand fails ih
  | memory x y left right => exact either fun fails => memory x y fails left right

theorem substitute_of_pred (holds : pred expr = true) :
    expr.substitute pred replace = replace expr := by
  cases expr <;> simp [substitute, substitute?, holds]

/-- An operation that is not replaced stays if its operands do, and else it is built anew. -/
theorem substitute_binary {op : Operator} {lhs rhs : Expr}
    (fails : pred (.binary op lhs rhs) = false) :
    ((binary op lhs rhs).substitute pred replace = .binary op lhs rhs ∧
        lhs.substitute pred replace = lhs ∧ rhs.substitute pred replace = rhs) ∨
      (binary op lhs rhs).substitute pred replace =
        combine op (lhs.substitute pred replace) (rhs.substitute pred replace) := by
  simp only [substitute, substitute?, fails, Bool.false_eq_true, if_false]
  split
  · rename_i left right
    exact .inl (by simp [left, right])
  · exact .inr rfl

theorem substitute_not {operand : Expr} (fails : pred (.not operand) = false) :
    ((not operand).substitute pred replace = .not operand ∧
        operand.substitute pred replace = operand) ∨
      (not operand).substitute pred replace = (operand.substitute pred replace).negation := by
  simp only [substitute, substitute?, fails, Bool.false_eq_true, if_false]
  cases operand.substitute? pred replace with
  | none => exact .inl ⟨rfl, rfl⟩
  | some changed => exact .inr rfl

theorem substitute_boolCast {operand : Expr} (fails : pred (.boolCast operand) = false) :
    ((boolCast operand).substitute pred replace = .boolCast operand ∧
        operand.substitute pred replace = operand) ∨
      (boolCast operand).substitute pred replace = (operand.substitute pred replace).truth := by
  simp only [substitute, substitute?, fails, Bool.false_eq_true, if_false]
  cases operand.substitute? pred replace with
  | none => exact .inl ⟨rfl, rfl⟩
  | some changed => exact .inr rfl

theorem substitute_memory {x y : Expr} (fails : pred (.memory x y) = false) :
    (memory x y).substitute pred replace =
      .memory (x.substitute pred replace) (y.substitute pred replace) := by
  simp only [substitute, substitute?, fails, Bool.false_eq_true, if_false]
  split
  · rename_i xKept yKept
    simp [xKept, yKept]
  · rfl

/-- Replacing parts gives the tree the value that it has with the values of the
replacements in their places, although the tree above them is simplified anew. -/
theorem eval_substitute (pred : Expr → Bool) (replace : Expr → Expr) (env : Env) (expr : Expr) :
    (expr.substitute pred replace).eval env =
      expr.evalWith pred (fun part => (replace part).eval env) env := by
  induction expr using outermost_induction pred with
  | outermost part holds => rw [substitute_of_pred holds, evalWith_of_pred holds]
  | const value fails | var id fails | peek fails =>
      simp [substitute, substitute?, evalWith, fails, eval]
  | binary op lhs rhs fails left right =>
      rw [evalWith, if_neg (by simp [fails]), ← left, ← right]
      rcases substitute_binary fails with ⟨kept, lhsKept, rhsKept⟩ | rebuilt
      · rw [kept, lhsKept, rhsKept, eval]
      · rw [rebuilt, eval_combine]
  | not operand fails value =>
      rw [evalWith, if_neg (by simp [fails]), ← value]
      rcases substitute_not fails with ⟨kept, operandKept⟩ | rebuilt
      · rw [kept, operandKept, eval]
      · rw [rebuilt, eval_negation]
  | boolCast operand fails value =>
      rw [evalWith, if_neg (by simp [fails]), ← value]
      rcases substitute_boolCast fails with ⟨kept, operandKept⟩ | rebuilt
      · rw [kept, operandKept, eval]
      · rw [rebuilt, eval_truth]
  | memory x y fails xValue yValue =>
      rw [evalWith, if_neg (by simp [fails]), ← xValue, ← yValue, substitute_memory fails, eval]

/-- A substitution finds something to replace just if some node satisfies the predicate. -/
theorem substitute?_eq_none_iff : expr.substitute? pred replace = none ↔ expr.any pred = false := by
  induction expr with
  | const value | var id | peek => simp [substitute?, any]
  | not operand ih | boolCast operand ih =>
      rw [any, Bool.or_eq_false_iff, ← ih, substitute?]
      split <;> simp_all
  | binary op lhs rhs left right =>
      rw [any, Bool.or_eq_false_iff, Bool.or_eq_false_iff, ← left, ← right, substitute?]
      split
      · simp_all
      · cases lhs.substitute? pred replace <;> cases rhs.substitute? pred replace <;> simp_all
  | memory x y left right =>
      rw [any, Bool.or_eq_false_iff, Bool.or_eq_false_iff, ← left, ← right, substitute?]
      split
      · simp_all
      · cases x.substitute? pred replace <;> cases y.substitute? pred replace <;> simp_all

/-- A substitution is `none` just if no node satisfies the predicate. Otherwise it gives a tree with
the value that the expression has when each outermost node that satisfies the predicate has the
value of its replacement, in every environment and although the tree above these nodes is simplified
anew. -/
theorem substitution_keeps_meaning (pred : Expr → Bool) (replace : Expr → Expr) (expr : Expr) :
    (expr.substitute? pred replace = none ↔ expr.any pred = false) ∧
      (expr.any pred = true → ∃ result, expr.substitute? pred replace = some result ∧
        ∀ env, result.eval env = expr.evalWith pred (fun part => (replace part).eval env) env) := by
  refine ⟨substitute?_eq_none_iff, fun holds => ?_⟩
  cases found : expr.substitute? pred replace with
  | none => simp [substitute?_eq_none_iff.mp found] at holds
  | some result =>
      refine ⟨result, rfl, fun env => ?_⟩
      rw [← eval_substitute, substitute, found, Option.getD_some]

/-- A variable or the top of the stack is read after a replacement where it was read before and is
not replaced, or where some replacement reads it. Cells are left out, since their coordinates may be
replaced. -/
theorem mem_sources_of_mem_substitute {source : Expr} (leaf : ∀ x y, source ≠ .memory x y)
    (member : source ∈ (expr.substitute pred replace).sources) :
    (source ∈ expr.sources ∧ pred source = false) ∨
      ∃ part, pred part = true ∧ source ∈ (replace part).sources := by
  induction expr using outermost_induction pred with
  | outermost part holds =>
      rw [substitute_of_pred holds] at member
      exact .inr ⟨part, holds, member⟩
  | const value fails => simp [substitute, substitute?, fails, sources] at member
  | var id fails | peek fails =>
      simp only [substitute, substitute?, fails, Bool.false_eq_true, if_false,
        Option.getD_none] at member
      rw [List.mem_singleton.mp member]
      exact .inl ⟨List.mem_singleton_self _, fails⟩
  | binary op lhs rhs fails left right =>
      have sides : source ∈ (lhs.substitute pred replace).sources ∨
          source ∈ (rhs.substitute pred replace).sources := by
        rcases substitute_binary fails with ⟨kept, lhsKept, rhsKept⟩ | rebuilt
        · rw [kept] at member
          rw [lhsKept, rhsKept]
          exact List.mem_append.mp member
        · rw [rebuilt] at member
          exact mem_sources_of_mem_combine member
      simp only [sources, List.mem_append, or_and_right]
      rcases sides with member | member
      · exact (left member).imp_left .inl
      · exact (right member).imp_left .inr
  | not operand fails ih =>
      apply ih
      rcases substitute_not fails with ⟨kept, operandKept⟩ | rebuilt
      · rw [kept] at member
        rwa [operandKept]
      · rw [rebuilt] at member
        exact sources_negation_subset _ member
  | boolCast operand fails ih =>
      apply ih
      rcases substitute_boolCast fails with ⟨kept, operandKept⟩ | rebuilt
      · rw [kept] at member
        rwa [operandKept]
      · rw [rebuilt] at member
        exact sources_truth_subset _ member
  | memory x y fails left right =>
      rw [substitute_memory fails, sources, List.mem_cons, List.mem_append] at member
      simp only [sources, List.mem_cons, leaf, false_or, List.mem_append, or_and_right]
      rcases member.resolve_left (leaf _ _) with member | member
      · exact (left member).imp_left .inl
      · exact (right member).imp_left .inr

theorem mem_vars_of_mem_substitute {var : VarId}
    (member : var ∈ (expr.substitute pred replace).vars) :
    var ∈ expr.vars ∨ ∃ part, pred part = true ∧ var ∈ (replace part).vars := by
  simp only [mem_vars_iff] at member ⊢
  exact (mem_sources_of_mem_substitute (by simp) member).imp_left And.left

theorem readsStack_substitute {expr : Expr} (free : ∀ part, (replace part).readsStack = false) :
    (expr.substitute isPeek replace).readsStack = false := by
  rw [← Bool.not_eq_true, readsStack_iff]
  intro member
  rcases mem_sources_of_mem_substitute (by simp) member with ⟨-, kept⟩ | ⟨part, -, reads⟩
  · simp [isPeek] at kept
  · rw [← readsStack_iff, free part] at reads
    cases reads

/-- Replacing the top of the stack is evaluating with another top. -/
theorem evalWith_isPeek (word : Word) (env : Env) (expr : Expr) :
    expr.evalWith isPeek (fun _ => word) env = expr.eval { env with top := word } := by
  induction expr with
  | const value | var id | peek => rfl
  | not operand value | boolCast operand value =>
      rw [evalWith, if_neg (by simp [isPeek]), value, eval]
  | binary op lhs rhs leftValue rightValue =>
      rw [evalWith, if_neg (by simp [isPeek]), leftValue, rightValue, eval]
  | memory x y xValue yValue =>
      rw [evalWith, if_neg (by simp [isPeek]), xValue, yValue, eval]

end Substitution

/-- The value depends on the variables that occur, on the grid, and on the top of the stack if that
is read. -/
theorem eval_congr {expr : Expr} {env other : Env}
    (vars : ∀ var ∈ expr.vars, env.vars var = other.vars var) (cell : env.cell = other.cell)
    (top : expr.readsStack = true → env.top = other.top) : expr.eval env = expr.eval other := by
  induction expr with
  | const value => rfl
  | var id => exact vars id (List.mem_singleton_self id)
  | peek => exact top rfl
  | not operand value | boolCast operand value =>
      rw [eval, eval, value vars top]
  | binary op lhs rhs leftValue rightValue =>
      rw [eval, eval,
        leftValue (fun var member => vars var (List.mem_append_left _ member)) fun reads => top ?_,
        rightValue (fun var member => vars var (List.mem_append_right _ member))
          fun reads => top ?_] <;>
      simp only [readsStack] at reads ⊢ <;>
      simp [any, reads]
  | memory x y xValue yValue =>
      rw [eval, eval, cell,
        xValue (fun var member => vars var (List.mem_append_left _ member)) fun reads => top ?_,
        yValue (fun var member => vars var (List.mem_append_right _ member))
          fun reads => top ?_] <;>
      simp only [readsStack] at reads ⊢ <;>
      simp [any, reads]

/-- Building keeps meaning: what is built for an operation has the value of the
operation on the values of the operands, in words that wrap and with zero for
every division by zero. -/
theorem builders_keep_meaning (env : Env) :
    (∀ op lhs rhs,
      (combine op lhs rhs).eval env = op.evaluate (lhs.eval env) (rhs.eval env) ∧
        op.evaluate (lhs.eval env) (rhs.eval env) =
          Int64.ofInt (op.exact (lhs.eval env).toInt (rhs.eval env).toInt)) ∧
      (∀ expr : Expr, expr.negation.eval env = if expr.eval env = 0 then 1 else 0) ∧
      (∀ expr : Expr, expr.truth.eval env = if expr.eval env = 0 then 0 else 1) := by
  refine ⟨fun op lhs rhs => ⟨eval_combine env op lhs rhs, ?_⟩, eval_negation env, eval_truth env⟩
  exact Operator.evaluate_eq_ofInt_exact op _ _

end Expr

end StackFlow
