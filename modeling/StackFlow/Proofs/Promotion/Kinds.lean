import Mathlib
import StackFlow.Proofs.Promotion.Ops

/-!
# Vertices after the promotion

What holds for single ops carries over to runs of ops and to vertices. A vertex is
changed by the uses of its first visit. On any other visit it is met with another
symbolic stack; the uses of the two visits are compatible if they agree on the
variables of everything that is popped or seen.
-/

namespace StackFlow.Promotion

variable {assignment : Assignment} {base : Nat} {id : VertexId}

/-- Both uses of a site find the same variables, and the second leaves no variable twice on the
stack. -/
structure Compatible (assignment : Assignment) (first second : Use) : Prop where
  inputs : first.inputs.map assignment.var? = second.inputs.map assignment.var?
  peeked : first.peeked.map assignment.var? = second.peeked.map assignment.var?
  distinct : Distinct assignment second.after

/-- The uses are compatible one by one. -/
def CompatibleAll (assignment : Assignment) (firsts seconds : List Use) : Prop :=
  ∀ (place : Nat) {first second}, firsts[place]? = some first → seconds[place]? = some second →
    Compatible assignment first second

/-- The assignment knows the use and moves all of the values it binds or none. -/
structure Recorded (assignment : Assignment) (use : Use) : Prop where
  known : assignment.use? use.site = some use
  bound : AllOrNone assignment use.bound

/-- Only ops that push have a value of their own with a variable. -/
def Unpushed (assignment : Assignment) (id : VertexId) (index : Nat) (ops : List Op) : Prop :=
  ∀ (place : Nat) {op}, ops[place]? = some op → op.pushes = 0 →
    assignment.var? (.pushed ⟨id, index + place⟩) = none

@[simp]
theorem length_ofOps (index : Nat) (ops : List Op) (stack : Stack) :
    (ofOps id index ops stack).length = ops.length := by
  induction ops generalizing index stack with
  | nil => rfl
  | cons op ops rest => simp [ofOps, rest]

theorem site_ofOp (site : Site) (op : Op) (stack : Stack) : (ofOp site op stack).site = site := by
  cases op <;> rfl

@[simp]
theorem stackAfter_nil (stack : Stack) : stackAfter stack [] = stack := rfl

@[simp]
theorem stackAfter_cons (stack : Stack) (use : Use) (uses : List Use) :
    stackAfter stack (use :: uses) = stackAfter use.after uses := by
  cases uses with
  | nil => rfl
  | cons next uses => simp [stackAfter, List.getLast?_cons]

@[simp]
theorem stackAfter_append_single (stack : Stack) (uses : List Use) (use : Use) :
    stackAfter stack (uses ++ [use]) = use.after := by
  simp [stackAfter]

theorem Compatible.operands {site : Site} {op : Op} {first second tags : Stack}
    (compatible : Compatible assignment (ofOp site op first) (ofOp site op second))
    (agree : Agree assignment tags second) :
    ∀ place < op.pops,
      assignment.var? (valueAt first place) = assignment.var? (valueAt tags place) := by
  intro place bound
  have inputs := compatible.inputs
  simp only [inputs_ofOp, topmost_eq_map_valueAt, List.map_map, List.map_inj_left, List.mem_range,
    Function.comp_apply] at inputs
  rw [inputs place bound, agree]

theorem Compatible.meets {site : Site} {op : Op} {first second tags : Stack}
    (compatible : Compatible assignment (ofOp site op first) (ofOp site op second))
    (agree : Agree assignment tags second) (own : ∀ var ∈ op.vars, var.index < base) :
    Meets assignment base site op first tags where
  own := own
  inputs := compatible.operands agree
  peeked := by
    intro reads
    have peeked := compatible.peeked
    simp only [peeked_ofOp, reads, if_true, Option.map_some, Option.some.injEq] at peeked
    rw [peeked, agree]
  distinct := (agree.tagsAfterOp site op).distinct compatible.distinct

/-- A run of ops is replaced by one that does the same in split states. -/
theorem ops_promotes {index : Nat} {ops : List Op} {first : Stack} (fresh : assignment.Fresh base)
    (recorded : ∀ use ∈ ofOps id index ops first, Recorded assignment use)
    (unpushed : Unpushed assignment id index ops) :
    ∃ body, assignment.ops id index ops = .ok body ∧
      (∀ new ∈ body, ∀ var ∈ new.vars,
        (∃ op ∈ ops, var ∈ op.vars) ∨ ∃ value, assignment.var? value = some var) ∧
      ∀ {entries state twin second}, (∀ op ∈ ops, ∀ var ∈ op.vars, var.index < base) →
        Agree assignment (Split.tags entries) second →
        CompatibleAll assignment (ofOps id index ops first) (ofOps id index ops second) →
        Split assignment base entries state twin →
        state.events ops = twin.events body ∧
          ∃ after, Split.tags after = tagsAfterOps id index ops (Split.tags entries) ∧
            Agree assignment (Split.tags after) (stackAfter second (ofOps id index ops second)) ∧
            Split assignment base after (state.run ops) (twin.run body) := by
  induction ops generalizing index first with
  | nil =>
      refine ⟨[], rfl, by simp, ?_⟩
      intro entries state twin second _ agree _ split
      exact ⟨rfl, entries, rfl, agree, split⟩
  | cons op ops rest =>
      have own := recorded _ (List.mem_cons_self ..)
      have known : assignment.use? ⟨id, index⟩ = some (ofOp ⟨id, index⟩ op first) := by
        simpa only [site_ofOp] using own.known
      rcases op_promotes fresh known own.bound (unpushed 0 rfl) with ⟨new, changed, newVars, mimics⟩
      have othersUnpushed : Unpushed assignment id (index + 1) ops := by
        intro place other present
        rw [Nat.add_assoc, Nat.add_comm 1]
        exact unpushed (place + 1) (by simpa using present)
      rcases rest (fun use member => recorded use (List.mem_cons_of_mem _ member))
        othersUnpushed with ⟨body, othersChanged, bodyVars, run⟩
      refine ⟨new :: body, ?_, ?_, ?_⟩
      · rw [Assignment.ops, changed, othersChanged]
        rfl
      · intro other member var inside
        rcases List.mem_cons.mp member with rfl | member
        · exact (newVars var inside).imp_left fun old => ⟨op, List.mem_cons_self .., old⟩
        · exact (bodyVars other member var inside).imp_left fun ⟨old, listed, occurs⟩ =>
            ⟨old, List.mem_cons_of_mem _ listed, occurs⟩
      · intro entries state twin second declared agree compatible split
        have firstCompatible : Compatible assignment (ofOp ⟨id, index⟩ op first)
            (ofOp ⟨id, index⟩ op second) :=
          compatible 0 rfl rfl
        have meets := firstCompatible.meets agree (declared op (List.mem_cons_self ..))
        rcases mimics meets split with ⟨events, middle, middleTags, middleSplit⟩
        have middleAgree : Agree assignment (Split.tags middle)
            (ofOp ⟨id, index⟩ op second).after := by
          rw [middleTags]
          exact agree.tagsAfterOp ⟨id, index⟩ op
        have othersCompatible : CompatibleAll assignment
            (ofOps id (index + 1) ops (ofOp ⟨id, index⟩ op first).after)
            (ofOps id (index + 1) ops (ofOp ⟨id, index⟩ op second).after) :=
          fun place _ _ found otherFound => compatible (place + 1) found otherFound
        rcases run (fun op member => declared op (List.mem_cons_of_mem _ member)) middleAgree
          othersCompatible middleSplit with ⟨others, after, afterTags, afterAgree, afterSplit⟩
        refine ⟨congrArg₂ (· ++ ·) events others, after, ?_, ?_, afterSplit⟩
        · rw [afterTags, middleTags, tagsAfterOps]
        · rwa [ofOps, stackAfter_cons]

/-- The exit in the place of one whose value may have moved to a variable. -/
def Assignment.exit (assignment : Assignment) (site : Site) : Exit → Exit
  | .popped => (assignment.popped? site).elim .popped fun var => .tested (.var var)
  | .tested test => .tested (assignment.test site test)
  | .next => .next
  | .random => .random

theorem Assignment.arity?_exit (site : Site) (exit : Exit) :
    (assignment.exit site exit).arity? = exit.arity? := by
  cases exit with
  | popped =>
      unfold Assignment.exit
      cases assignment.popped? site <;> rfl
  | next | tested test | random => rfl

/-- A vertex is changed by changing its ops and its exit. -/
theorem Assignment.exists_kind {kind : Kind} {body : List Op}
    (changed : assignment.ops id 0 kind.ops = .ok body) :
    ∃ new, assignment.kind id kind = .ok new ∧ new.ops = body ∧
      new.exit = assignment.exit ⟨id, kind.ops.length⟩ kind.exit := by
  cases kind with
  | single op =>
      rcases bind_eq_ok_iff.mp changed with ⟨new, newOp, rest⟩
      refine ⟨.single new, ?_, ?_, rfl⟩
      · rw [Assignment.kind, newOp]
        rfl
      · simpa [Kind.ops, Assignment.ops, bind, Except.bind, pure, Except.pure] using rest
  | block ops =>
      refine ⟨.block body, ?_, rfl, rfl⟩
      rw [Assignment.kind, show assignment.ops id 0 ops = .ok body from changed]
      rfl
  | decision =>
      cases changed
      refine ⟨_, rfl, ?_, ?_⟩ <;>
        simp only [Assignment.exit, Kind.exit, Kind.ops, List.length_nil] <;>
        cases assignment.popped? ⟨id, 0⟩ <;> rfl
  | exprDecision test =>
      cases changed
      exact ⟨_, rfl, rfl, rfl⟩
  | decisionBlock ops =>
      have changed : assignment.ops id 0 ops = .ok body := changed
      refine ⟨(assignment.popped? ⟨id, ops.length⟩).elim (.decisionBlock body) fun var =>
        .exprDecisionBlock body (.var var), ?_, ?_, ?_⟩
      · rw [Assignment.kind, changed]
        rfl
      · cases assignment.popped? ⟨id, ops.length⟩ <;> rfl
      · simp only [Assignment.exit, Kind.exit, Kind.ops]
        cases assignment.popped? ⟨id, ops.length⟩ <;> rfl
  | exprDecisionBlock ops test =>
      have changed : assignment.ops id 0 ops = .ok body := changed
      refine ⟨.exprDecisionBlock body (assignment.test ⟨id, ops.length⟩ test), ?_, rfl, rfl⟩
      rw [Assignment.kind, changed]
      rfl
  | random =>
      cases changed
      exact ⟨_, rfl, rfl, rfl⟩

section Unknown

variable (unknown : ∀ index, assignment.use? ⟨id, index⟩ = none)

include unknown

theorem Assignment.ops_of_unknown (index : Nat) (ops : List Op) :
    assignment.ops id index ops = .ok ops := by
  induction ops generalizing index with
  | nil => rfl
  | cons op ops rest =>
      have same : assignment.op ⟨id, index⟩ op = .ok op := by simp [Assignment.op, unknown]
      rw [Assignment.ops, same, rest]
      rfl

/-- A vertex without a visit stays as it is. -/
theorem Assignment.kind_of_unknown (kind : Kind) : assignment.kind id kind = .ok kind := by
  have same : ∀ ops, assignment.ops id 0 ops = .ok ops := Assignment.ops_of_unknown unknown 0
  cases kind with
  | single op =>
      simp [Assignment.kind, Assignment.op, unknown, bind, Except.bind, pure, Except.pure]
  | block ops => simp [Assignment.kind, same, bind, Except.bind, pure, Except.pure]
  | decision => simp [Assignment.kind, Assignment.popped?, unknown]
  | exprDecision test => simp [Assignment.kind, Assignment.test, unknown]
  | decisionBlock ops =>
      simp [Assignment.kind, same, Assignment.popped?, unknown, bind, Except.bind, pure,
        Except.pure]
  | exprDecisionBlock ops test =>
      simp [Assignment.kind, same, Assignment.test, unknown, bind, Except.bind, pure, Except.pure]
  | random => rfl

end Unknown

section Exit

variable {site : Site} {first second : Stack} {entries : List (Value × Word)} {state twin : State}

/-- The changed exit leaves by the same edge and keeps the states split. -/
theorem exit_promotes {exit : Exit} (fresh : assignment.Fresh base)
    (known : assignment.use? site = some (ofExit site exit first))
    (own : ∀ test, exit = .tested test → ∀ var ∈ test.vars, var.index < base)
    (agree : Agree assignment (Split.tags entries) second)
    (compatible : Compatible assignment (ofExit site exit first) (ofExit site exit second))
    (split : Split assignment base entries state twin) :
    (∀ drawn, (assignment.exit site exit).edge drawn twin = exit.edge drawn state) ∧
      ∃ after, Split.tags after = (Split.tags entries).drop (if exit = .popped then 1 else 0) ∧
        Agree assignment (Split.tags after) (ofExit site exit second).after ∧
        Split assignment base after (exit.run state) ((assignment.exit site exit).run twin) := by
  cases exit with
  | next | random => exact ⟨fun _ => rfl, entries, rfl, agree, split⟩
  | tested test =>
      refine ⟨fun _ => ?_, entries, rfl, agree, split⟩
      have value : (assignment.expr (ofExit site (.tested test) first) test).eval twin.env =
          test.eval state.env := by
        have peeked := compatible.peeked
        refine split.eval fresh (own test rfl) (fun value onTop => ?_) (fun reads => ?_)
        · by_cases reads : test.readsStack = true
          · simp only [ofExit, reads, if_true, Option.map_some, Option.some.injEq,
              top_eq_valueAt] at peeked onTop
            rw [← onTop, peeked, agree]
          · simp [ofExit, reads] at onTop
        · simp [ofExit, reads]
      simp only [Assignment.exit, Assignment.test, known, Exit.edge, value]
  | popped =>
      have same : assignment.var? (valueAt first 0) =
          assignment.var? (valueAt (Split.tags entries) 0) := by
        have inputs := compatible.inputs
        simp only [ofExit, if_true, List.map_cons, List.cons.injEq, top_eq_valueAt] at inputs
        rw [inputs.1, agree]
      have input : assignment.popped? site = assignment.var? (valueAt (Split.tags entries) 0) := by
        simp [Assignment.popped?, known, ofExit, top_eq_valueAt, same]
      cases moved : assignment.var? (valueAt (Split.tags entries) 0) with
      | none =>
          have onTop : twin.operand 0 = state.operand 0 :=
            split.operand_kept fun above bound => Nat.le_zero.mp bound ▸ moved
          simp only [Assignment.exit, input, moved, Option.elim]
          refine ⟨fun _ => by simp only [Exit.edge, onTop], entries.drop 1,
            List.map_drop .., ?_, ?_⟩
          · simpa [ofExit, List.map_drop] using agree.drop 1
          · exact split.drop_kept fun place bound => Nat.lt_one_iff.mp bound ▸ moved
      | some var =>
          have value := split.var_eq_operand fresh moved
          simp only [Assignment.exit, input, moved, Option.elim]
          refine ⟨fun _ => by simp only [Exit.edge, Expr.eval, State.env, value], entries.drop 1,
            List.map_drop .., ?_, ?_⟩
          · simpa [ofExit, List.map_drop] using agree.drop 1
          · exact split.drop_moved fresh fun place bound => by simp [Nat.lt_one_iff.mp bound, moved]

end Exit

/-- The use pops the value or sees it on top. -/
def Use.Sees (use : Use) (value : Value) : Prop :=
  value ∈ use.inputs ∨ use.peeked = some value

theorem Assignment.mem_vars_exit {site : Site} {kind : Kind} {test : Expr} {var : VarId}
    (tested : assignment.exit site kind.exit = .tested test) (member : var ∈ test.vars) :
    var ∈ kind.vars ∨
      ∃ use value, assignment.use? site = some use ∧ use.Sees value ∧
        assignment.var? value = some var := by
  cases exit : kind.exit with
  | next | random => simp [exit, Assignment.exit] at tested
  | tested old =>
      have inKind : ∀ other ∈ old.vars, other ∈ kind.vars := fun other inside =>
        Kind.mem_vars.mpr (.inr ⟨old, Kind.test?_eq_some_iff.mpr exit, inside⟩)
      simp only [exit, Assignment.exit, Assignment.test, Exit.tested.injEq] at tested
      split at tested
      · rename_i use known
        subst tested
        rcases Assignment.mem_vars_of_mem_expr member with inside | ⟨value, onTop, hasVar⟩
        · exact .inl (inKind var inside)
        · exact .inr ⟨use, value, known, .inr onTop, hasVar⟩
      · exact .inl (inKind var (tested ▸ member))
  | popped =>
      cases popped : assignment.popped? site with
      | none => simp [exit, Assignment.exit, popped] at tested
      | some other =>
          simp only [exit, Assignment.exit, popped, Option.elim, Exit.tested.injEq] at tested
          have same : var = other := by simpa [← tested, Expr.vars] using member
          rcases Option.bind_eq_some_iff.mp popped with ⟨use, known, found⟩
          rcases Option.bind_eq_some_iff.mp found with ⟨value, first, hasVar⟩
          exact .inr ⟨use, value, known, .inl (List.mem_of_mem_head? first), same ▸ hasVar⟩

/-- The uses of a vertex are compatible if those of its ops are and those of its exit. -/
theorem CompatibleAll.kind {kind : Kind} {first second : Stack}
    (compatible : CompatibleAll assignment (ofKind id kind first) (ofKind id kind second)) :
    CompatibleAll assignment (ofOps id 0 kind.ops first) (ofOps id 0 kind.ops second) ∧
      Compatible assignment
        (ofExit ⟨id, kind.ops.length⟩ kind.exit (stackAfter first (ofOps id 0 kind.ops first)))
        (ofExit ⟨id, kind.ops.length⟩ kind.exit
          (stackAfter second (ofOps id 0 kind.ops second))) := by
  constructor
  · intro place one other found otherFound
    refine compatible place ?_ ?_
    · exact List.getElem?_append_left (List.getElem?_eq_some_iff.mp found).1 ▸ found
    · exact List.getElem?_append_left (List.getElem?_eq_some_iff.mp otherFound).1 ▸ otherFound
  · exact compatible kind.ops.length (by simp [ofKind]) (by simp [ofKind])

/-- A vertex is replaced by one that does the same in split states. -/
theorem kind_promotes {kind : Kind} {first : Stack} (fresh : assignment.Fresh base)
    (recorded : ∀ use ∈ ofKind id kind first, Recorded assignment use)
    (unpushed : Unpushed assignment id 0 kind.ops) :
    ∃ new, assignment.kind id kind = .ok new ∧ new.arity? = kind.arity? ∧
      (∀ var ∈ new.vars, var ∈ kind.vars ∨ ∃ value, assignment.var? value = some var) ∧
      ∀ {entries state twin second}, (∀ var ∈ kind.vars, var.index < base) →
        Agree assignment (Split.tags entries) second →
        CompatibleAll assignment (ofKind id kind first) (ofKind id kind second) →
        Split assignment base entries state twin →
        kind.events state = new.events twin ∧
          (∀ drawn, new.edge drawn twin = kind.edge drawn state) ∧
          ∃ after, Split.tags after = tagsAfterKind id kind (Split.tags entries) ∧
            Agree assignment (Split.tags after) (stackAfter second (ofKind id kind second)) ∧
            Split assignment base after (kind.run state) (new.run twin) := by
  rcases ops_promotes fresh (fun use member => recorded use (List.mem_append_left _ member))
    unpushed with ⟨body, changed, bodyVars, run⟩
  rcases Assignment.exists_kind changed with ⟨new, newKind, newOps, newExit⟩
  have known : assignment.use? ⟨id, kind.ops.length⟩ = some (ofExit ⟨id, kind.ops.length⟩ kind.exit
      (stackAfter first (ofOps id 0 kind.ops first))) :=
    (recorded _ (List.mem_append_right _ (List.mem_singleton_self _))).known
  refine ⟨new, newKind, ?_, ?_, ?_⟩
  · rw [Kind.arity?, newExit, Assignment.arity?_exit, Kind.arity?]
  · intro var member
    rcases Kind.mem_vars.mp member with ⟨op, listed, inside⟩ | ⟨test, tested, inside⟩
    · rw [newOps] at listed
      exact (bodyVars op listed var inside).imp_left fun old => Kind.mem_vars.mpr (.inl old)
    · have isTested : new.exit = .tested test := Kind.test?_eq_some_iff.mp tested
      rcases Assignment.mem_vars_exit (newExit ▸ isTested) inside with
        old | ⟨_, value, -, -, hasVar⟩
      · exact .inl old
      · exact .inr ⟨value, hasVar⟩
  · intro entries state twin second own agree compatible split
    rcases compatible.kind with ⟨opsCompatible, exitCompatible⟩
    have opsOwn : ∀ op ∈ kind.ops, ∀ var ∈ op.vars, var.index < base :=
      fun op listed var inside => own var (Kind.mem_vars.mpr (.inl ⟨op, listed, inside⟩))
    have testOwn : ∀ test, kind.exit = .tested test → ∀ var ∈ test.vars, var.index < base :=
      fun test tested var inside =>
        own var (Kind.mem_vars.mpr (.inr ⟨test, Kind.test?_eq_some_iff.mpr tested, inside⟩))
    rcases run opsOwn agree opsCompatible split with
      ⟨events, middle, middleTags, middleAgree, middleSplit⟩
    rcases exit_promotes fresh known testOwn middleAgree exitCompatible middleSplit with
      ⟨edges, after, afterTags, afterAgree, afterSplit⟩
    refine ⟨?_, ?_, after, ?_, ?_, ?_⟩
    · rw [Kind.events, Kind.events, newOps, events]
    · simpa only [Kind.edge, newOps, newExit] using edges
    · simpa only [tagsAfterKind, ← middleTags, Kind.popsTest, decide_eq_true_eq] using afterTags
    · simpa only [ofKind, stackAfter_append_single] using afterAgree
    · simpa only [Kind.run, newOps, newExit] using afterSplit

end StackFlow.Promotion
