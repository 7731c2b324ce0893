import Mathlib
import StackFlow.Expr.Substitute
import StackFlow.Proofs.Expr.Meaning

/-!
# The normal form of built expressions

Some rules of `combine` and `negation` put a node together without looking at
it again: a linear form is written back as one sum, an offset moves across an
equation, a relation is flipped. `IsNormal` says what a node must look like for
the builders to leave it alone, in terms of the literals beside it and of the
outermost node of its operands. Every builder yields such a tree from such
trees, and substitution does too, since it rebuilds what stands above a
replaced part. So the trees that the builders can reach are exactly those that
building again from the leaves returns unchanged.
-/

namespace StackFlow

namespace Operator

/-- What `term op literal` needs so that no rule applies to it. -/
def KeepsLiteralRight (op : Operator) (term : Expr) (literal : Word) : Prop :=
  match op with
  | .add | .sub => literal ≠ 0 ∧ term.linear? = none
  | .mul => literal ≠ 0 ∧ literal ≠ 1 ∧ term.scaled? = none
  | .div | .mod => literal ≠ 1
  | .eq | .ne => term.linear? = none
  | .gt | .lt | .ge | .le => True

/-- What `literal op term` needs so that no rule applies to it. A difference may start with zero. -/
def KeepsLiteralLeft (op : Operator) (literal : Word) (term : Expr) : Prop :=
  match op with
  | .add => literal ≠ 0 ∧ term.linear? = none
  | .mul => literal ≠ 0 ∧ literal ≠ 1 ∧ term.scaled? = none
  | .div | .mod => literal ≠ 0
  | .sub | .eq | .ne => term.linear? = none
  | .gt | .lt | .ge | .le => True

/-- No rule applies to `lhs op rhs`. -/
def Keeps (op : Operator) (lhs rhs : Expr) : Prop :=
  match lhs.constant?, rhs.constant? with
  | some _, some _ => False
  | none, some literal => op.KeepsLiteralRight lhs literal
  | some literal, none => op.KeepsLiteralLeft literal rhs
  | none, none => True

end Operator

namespace Expr

/-- The node can stand under a negation or a cast. -/
def IsUnsettled (expr : Expr) : Prop :=
  expr.constant? = none ∧ expr.isBoolean = false

/-- No rule applies anywhere in the tree. -/
def IsNormal : Expr → Prop
  | .const _ | .var _ | .peek => True
  | .binary op lhs rhs => lhs.IsNormal ∧ rhs.IsNormal ∧ op.Keeps lhs rhs
  | .not operand | .boolCast operand => operand.IsNormal ∧ operand.IsUnsettled
  | .memory x y => x.IsNormal ∧ y.IsNormal

/-- The tree put together again by the builders, from the leaves up. -/
def rebuild : Expr → Expr
  | .const value => .const value
  | .var id => .var id
  | .peek => .peek
  | .binary op lhs rhs => combine op lhs.rebuild rhs.rebuild
  | .not operand => operand.rebuild.negation
  | .boolCast operand => operand.rebuild.truth
  | .memory x y => .memory x.rebuild y.rebuild

/-- The trees that come out of the builders and of substitution by such trees. -/
inductive Built : Expr → Prop
  | const (value : Word) : Built (.const value)
  | var (id : VarId) : Built (.var id)
  | peek : Built .peek
  | memory {x y : Expr} : Built x → Built y → Built (.memory x y)
  | combine (op : Operator) {lhs rhs : Expr} : Built lhs → Built rhs → Built (combine op lhs rhs)
  | negation {operand : Expr} : Built operand → Built operand.negation
  | truth {operand : Expr} : Built operand → Built operand.truth
  | substitute (pred : Expr → Bool) (replace : Expr → Expr) {expr : Expr} :
      Built expr → (∀ part, pred part = true → Built (replace part)) →
        Built (expr.substitute pred replace)

variable {expr lhs rhs term : Expr} {form : Linear} {op : Operator} {literal factor : Word}

section Nodes

theorem constant?_const (value : Word) : (const value).constant? = some value := rfl

theorem isNormal_literal_right (normal : term.IsNormal) (open_ : term.constant? = none)
    (keeps : op.KeepsLiteralRight term literal) : (binary op term (.const literal)).IsNormal := by
  refine ⟨normal, trivial, ?_⟩
  simpa only [Operator.Keeps, open_, constant?_const] using keeps

theorem isNormal_literal_left (normal : term.IsNormal) (open_ : term.constant? = none)
    (keeps : op.KeepsLiteralLeft literal term) : (binary op (.const literal) term).IsNormal := by
  refine ⟨trivial, normal, ?_⟩
  simpa only [Operator.Keeps, open_, constant?_const] using keeps

end Nodes

section LinearForms

/-- The term of a linear form as the sums of a normal tree have it: normal, no literal, and no sum
with one. -/
structure Linear.IsNormal (form : Linear) : Prop where
  term : form.term.IsNormal
  constant : form.term.constant? = none
  linear : form.term.linear? = none

theorem isNormal_of_linear? (found : expr.linear? = some form) (normal : expr.IsNormal) :
    form.IsNormal := by
  unfold linear? at found
  split at found
  · split at found <;> simp only [Option.some.injEq, reduceCtorEq] at found <;> subst found
    all_goals
      rename_i left right
      obtain ⟨lhsNormal, rhsNormal, keeps⟩ := normal
      simp only [Operator.Keeps, left, right] at keeps
    · exact ⟨lhsNormal, left, keeps.2⟩
    · exact ⟨rhsNormal, right, keeps.2⟩
  · split at found <;> simp only [Option.some.injEq, reduceCtorEq] at found <;> subst found
    all_goals
      rename_i left right
      obtain ⟨lhsNormal, rhsNormal, keeps⟩ := normal
      simp only [Operator.Keeps, left, right] at keeps
    · exact ⟨lhsNormal, left, keeps.2⟩
    · exact ⟨rhsNormal, right, keeps⟩
  · simp at found

theorem isNormal_toExpr (normal : form.IsNormal) : form.toExpr.IsNormal := by
  unfold Linear.toExpr
  split
  · exact isNormal_literal_left normal.term normal.constant normal.linear
  · split
    · exact normal.term
    · rename_i nonzero
      split
      · have opposite : -form.offset ≠ 0 := by
          intro zero
          exact nonzero (by grind)
        exact isNormal_literal_right normal.term normal.constant ⟨opposite, normal.linear⟩
      · exact isNormal_literal_right normal.term normal.constant ⟨nonzero, normal.linear⟩

theorem isNormal_compare (normal : form.IsNormal) (equality : op = .eq ∨ op = .ne)
    (literal : Word) : (form.compare op literal).IsNormal := by
  apply isNormal_literal_right normal.term normal.constant
  rcases equality with rfl | rfl <;> exact normal.linear

/-- Changing the sign or the offset of a form leaves its term as it is. -/
theorem Linear.IsNormal.with (normal : form.IsNormal) (negated : Bool) (offset : Word) :
    Linear.IsNormal { form with negated, offset } :=
  ⟨normal.term, normal.constant, normal.linear⟩

end LinearForms

section Factors

theorem isNormal_of_scaled? (found : expr.scaled? = some (term, factor)) (normal : expr.IsNormal) :
    term.IsNormal := by
  unfold scaled? at found
  split at found
  · split at found <;> simp only [Option.some.injEq, Prod.mk.injEq, reduceCtorEq] at found <;>
      obtain ⟨rfl, rfl⟩ := found
    · exact normal.1
    · exact normal.2.1
  · simp at found

/-- A term that is no product with a literal takes any factor but zero and one. -/
theorem isNormal_factor (normal : term.IsNormal) (open_ : term.constant? = none)
    (unscaled : term.scaled? = none) (zero : factor ≠ 0) (one : factor ≠ 1) :
    (binary .mul term (.const factor)).IsNormal :=
  isNormal_literal_right normal open_ ⟨zero, one, unscaled⟩

theorem isNormal_scale (normal : expr.IsNormal) (factor : Word) : (expr.scale factor).IsNormal := by
  fun_induction scale expr factor with
  | case1 => trivial
  | case2 => exact normal
  | case3 => trivial
  | case4 lhs rhs factor _ _ inner _ _ ih => exact ih normal.1
  | case5 lhs rhs factor _ _ inner _ _ ih => exact ih normal.2.1
  | case6 lhs rhs factor one zero right left =>
      apply isNormal_factor normal rfl _ zero one
      unfold scaled?
      split <;> simp_all
  | case7 => exact normal
  | case8 => trivial
  | case9 expr factor constant product one zero =>
      have open_ : expr.constant? = none := by
        cases expr <;> simp_all [constant?]
      have unscaled : expr.scaled? = none := by
        unfold scaled?
        split
        · exact absurd rfl (product _ _)
        · rfl
      exact isNormal_factor normal open_ unscaled zero one

end Factors

section Builders

theorem isNormal_combineRight (normal : expr.IsNormal) (open_ : expr.constant? = none)
    (op : Operator) (literal : Word) : (expr.combineRight op literal).IsNormal := by
  have plain (keeps : op.KeepsLiteralRight expr literal) :
      (binary op expr (.const literal)).IsNormal :=
    isNormal_literal_right normal open_ keeps
  cases op with
  | add =>
      simp only [combineRight]
      split
      · exact normal
      · rename_i nonzero
        split
        · rename_i found
          exact isNormal_toExpr ((isNormal_of_linear? found normal).with _ _)
        · rename_i missing
          exact plain ⟨nonzero, missing⟩
  | sub =>
      simp only [combineRight]
      split
      · exact normal
      · rename_i nonzero
        split
        · rename_i found
          exact isNormal_toExpr ((isNormal_of_linear? found normal).with _ _)
        · rename_i missing
          exact plain ⟨nonzero, missing⟩
  | mul => exact isNormal_scale normal literal
  | div =>
      simp only [combineRight]
      split
      · exact normal
      · rename_i other
        exact plain other
  | mod =>
      simp only [combineRight]
      split
      · trivial
      · rename_i other
        exact plain other
  | eq | ne =>
      simp only [combineRight]
      split
      · rename_i found
        exact isNormal_compare (isNormal_of_linear? found normal) (by simp) literal
      · rename_i missing
        exact plain missing
  | gt | lt | ge | le => exact plain trivial

theorem isNormal_combineLeft (normal : expr.IsNormal) (open_ : expr.constant? = none)
    (op : Operator) (literal : Word) : (combineLeft op literal expr).IsNormal := by
  have plain (keeps : op.KeepsLiteralLeft literal expr) :
      (binary op (.const literal) expr).IsNormal :=
    isNormal_literal_left normal open_ keeps
  cases op with
  | add =>
      simp only [combineLeft]
      split
      · exact normal
      · rename_i nonzero
        split
        · rename_i found
          exact isNormal_toExpr ((isNormal_of_linear? found normal).with _ _)
        · rename_i missing
          exact plain ⟨nonzero, missing⟩
  | sub =>
      simp only [combineLeft]
      split
      · rename_i found
        exact isNormal_toExpr ((isNormal_of_linear? found normal).with _ _)
      · rename_i missing
        exact plain missing
  | mul =>
      simp only [combineLeft]
      split
      · exact normal
      · rename_i one
        split
        · trivial
        · rename_i zero
          split
          · rename_i found
            exact isNormal_scale (isNormal_of_scaled? found normal) _
          · rename_i missing
            exact plain ⟨zero, one, missing⟩
  | div | mod =>
      simp only [combineLeft]
      split
      · trivial
      · rename_i other
        exact plain other
  | eq | ne =>
      simp only [combineLeft]
      split
      · rename_i found
        exact isNormal_compare (isNormal_of_linear? found normal) (by simp) literal
      · rename_i missing
        exact plain missing
  | gt | lt | ge | le => exact plain trivial

theorem isNormal_combine (lhsNormal : lhs.IsNormal) (rhsNormal : rhs.IsNormal) (op : Operator) :
    (combine op lhs rhs).IsNormal := by
  unfold combine
  split
  · trivial
  · rename_i left _
    exact isNormal_combineRight lhsNormal left op _
  · rename_i right
    exact isNormal_combineLeft rhsNormal right op _
  · rename_i left right
    refine ⟨lhsNormal, rhsNormal, ?_⟩
    simp only [Operator.Keeps, left, right]

theorem isNormal_truth (normal : expr.IsNormal) : expr.truth.IsNormal := by
  unfold truth
  split
  · trivial
  · rename_i open_
    split
    · exact normal
    · rename_i number
      exact ⟨normal, open_, by simpa using number⟩

/-- A relation and its opposite ask the same of their operands. -/
theorem keeps_negated {opposite : Operator} (negated : op.negated? = some opposite) :
    opposite.Keeps lhs rhs ↔ op.Keeps lhs rhs := by
  cases op <;> simp only [Operator.negated?, Option.some.injEq, reduceCtorEq] at negated <;>
    subst negated <;> rfl

theorem negated?_eq_none_iff : op.negated? = none ↔ op.isRelation = false := by
  cases op <;> simp [Operator.negated?, Operator.isRelation]

theorem isNormal_negation (normal : expr.IsNormal) : expr.negation.IsNormal := by
  fun_induction negation expr with
  | case1 => trivial
  | case2 operand => exact isNormal_truth normal.1
  | case3 operand ih => exact ih normal.1
  | case4 op lhs rhs opposite negated =>
      obtain ⟨lhsNormal, rhsNormal, keeps⟩ := normal
      exact ⟨lhsNormal, rhsNormal, (keeps_negated negated).2 keeps⟩
  | case5 op lhs rhs arithmetic => exact ⟨normal, rfl, negated?_eq_none_iff.1 arithmetic⟩
  | case6 | case7 => exact ⟨trivial, rfl, rfl⟩
  | case8 x y => exact ⟨normal, rfl, rfl⟩

end Builders

section Substitution

variable {pred : Expr → Bool} {replace : Expr → Expr}

theorem isNormal_substitute (puts : ∀ part, pred part = true → (replace part).IsNormal)
    (normal : expr.IsNormal) : (expr.substitute pred replace).IsNormal := by
  induction expr using outermost_induction pred with
  | outermost part holds => exact substitute_of_pred holds ▸ puts part holds
  | const value fails | var id fails | peek fails =>
      simp only [substitute, substitute?, fails, Bool.false_eq_true, if_false, Option.getD_none]
      trivial
  | binary op lhs rhs fails left right =>
      rcases substitute_binary fails with ⟨kept, -, -⟩ | rebuilt
      · rwa [kept]
      · exact rebuilt ▸ isNormal_combine (left normal.1) (right normal.2.1) op
  | not operand fails ih =>
      rcases substitute_not fails with ⟨kept, -⟩ | rebuilt
      · rwa [kept]
      · exact rebuilt ▸ isNormal_negation (ih normal.1)
  | boolCast operand fails ih =>
      rcases substitute_boolCast fails with ⟨kept, -⟩ | rebuilt
      · rwa [kept]
      · exact rebuilt ▸ isNormal_truth (ih normal.1)
  | memory x y fails left right => exact substitute_memory fails ▸ ⟨left normal.1, right normal.2⟩

end Substitution

theorem Built.isNormal (built : Built expr) : expr.IsNormal := by
  induction built with
  | const | var | peek => trivial
  | memory _ _ xIh yIh => exact ⟨xIh, yIh⟩
  | combine op _ _ lhsIh rhsIh => exact isNormal_combine lhsIh rhsIh op
  | negation _ ih => exact isNormal_negation ih
  | truth _ ih => exact isNormal_truth ih
  | substitute pred replace _ _ ih putsIh => exact isNormal_substitute putsIh ih

section Rebuilding

theorem scale_of_scaled? (open_ : expr.constant? = none) (unscaled : expr.scaled? = none)
    (zero : factor ≠ 0) (one : factor ≠ 1) :
    expr.scale factor = .binary .mul expr (.const factor) := by
  unfold scale
  split
  · cases open_
  · simp only [zero, one, if_false]
    split <;> simp_all [scaled?]
  · simp only [zero, one, if_false]

theorem combineRight_of_keeps (open_ : expr.constant? = none)
    (keeps : op.KeepsLiteralRight expr literal) :
    expr.combineRight op literal = .binary op expr (.const literal) := by
  cases op <;> simp only [Operator.KeepsLiteralRight] at keeps
  case mul => exact scale_of_scaled? open_ keeps.2.2 keeps.1 keeps.2.1
  all_goals simp [combineRight, keeps]

theorem combineLeft_of_keeps (keeps : op.KeepsLiteralLeft literal expr) :
    combineLeft op literal expr = .binary op (.const literal) expr := by
  cases op <;> simp only [Operator.KeepsLiteralLeft] at keeps <;> simp [combineLeft, keeps]

theorem combine_of_keeps (keeps : op.Keeps lhs rhs) : combine op lhs rhs = .binary op lhs rhs := by
  unfold combine
  split <;> rename_i left right <;> simp only [Operator.Keeps, left, right] at keeps
  · rw [eq_const_of_constant? right, combineRight_of_keeps left keeps]
  · rw [eq_const_of_constant? left, combineLeft_of_keeps keeps]
  · rfl

theorem negation_of_isUnsettled (unsettled : expr.IsUnsettled) : expr.negation = .not expr := by
  obtain ⟨open_, number⟩ := unsettled
  cases expr with
  | const value => cases open_
  | binary op lhs rhs => simp only [negation, negated?_eq_none_iff.2 number]
  | not operand | boolCast operand => cases number
  | var | peek | memory => rfl

theorem truth_of_isUnsettled (unsettled : expr.IsUnsettled) : expr.truth = .boolCast expr := by
  simp only [truth, unsettled.1, unsettled.2, Bool.false_eq_true, if_false]

theorem rebuild_of_isNormal (normal : expr.IsNormal) : expr.rebuild = expr := by
  induction expr with
  | const | var | peek => rfl
  | binary op lhs rhs lhsIh rhsIh =>
      obtain ⟨lhsNormal, rhsNormal, keeps⟩ := normal
      rw [rebuild, lhsIh lhsNormal, rhsIh rhsNormal, combine_of_keeps keeps]
  | not operand ih => rw [rebuild, ih normal.1, negation_of_isUnsettled normal.2]
  | boolCast operand ih => rw [rebuild, ih normal.1, truth_of_isUnsettled normal.2]
  | memory x y xIh yIh => rw [rebuild, xIh normal.1, yIh normal.2]

theorem built_rebuild (expr : Expr) : Built expr.rebuild := by
  induction expr with
  | const value => exact .const value
  | var id => exact .var id
  | peek => exact .peek
  | binary op lhs rhs lhsIh rhsIh => exact .combine op lhsIh rhsIh
  | not operand ih => exact .negation ih
  | boolCast operand ih => exact .truth ih
  | memory x y xIh yIh => exact .memory xIh yIh

end Rebuilding

/-- The builders and substitution reach exactly the trees that rebuilding returns unchanged, and
rebuilding any tree twice is rebuilding it once. -/
theorem built_iff_rebuild_eq (expr : Expr) :
    (Built expr ↔ expr.rebuild = expr) ∧ expr.rebuild.rebuild = expr.rebuild := by
  refine ⟨⟨fun built => rebuild_of_isNormal built.isNormal, ?_⟩, ?_⟩
  · intro unchanged
    rw [← unchanged]
    exact built_rebuild expr
  · exact rebuild_of_isNormal (built_rebuild expr).isNormal

end Expr

end StackFlow
