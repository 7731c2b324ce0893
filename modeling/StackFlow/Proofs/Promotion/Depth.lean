import Mathlib
import StackFlow.Proofs.Depth.Comparison
import StackFlow.Proofs.Promotion.Soundness

/-!
# Promotion and the depth of the stack

After the promotion the stack holds just the values that stay, so it is as deep as
the number of tags without a variable. An op that is changed pops those of its
operands that stay and pushes those of its results that stay. This is true at the
bottom of the stack as well: what is found below the bottom stays.

Along every path the new program is therefore as deep as the tags that stay, and
the old one as deep as all tags.
-/

namespace StackFlow.Promotion

variable {assignment : Assignment} {base : Nat} {site : Site} {id : VertexId}
  {first second tags : Stack}

/-- The number of values that stay on the stack. -/
def staying (assignment : Assignment) (values : List Value) : Nat :=
  values.countP fun value => (assignment.var? value).isNone

section Staying

variable {values others : List Value}

@[simp]
theorem staying_nil : staying assignment [] = 0 := rfl

theorem staying_cons (value : Value) (values : List Value) :
    staying assignment (value :: values) =
      staying assignment values + staying assignment [value] := by
  simp [staying, List.countP_cons]

theorem staying_append (values others : List Value) :
    staying assignment (values ++ others) = staying assignment values + staying assignment others :=
  List.countP_append

theorem staying_le_length (values : List Value) : staying assignment values ≤ values.length :=
  List.countP_le_length

theorem staying_of_none (stay : ∀ value ∈ values, assignment.var? value = none) :
    staying assignment values = values.length := by
  rw [staying, List.countP_eq_length]
  intro value member
  simp [stay value member]

theorem staying_of_some (leave : ∀ value ∈ values, (assignment.var? value).isSome = true) :
    staying assignment values = 0 := by
  rw [staying, List.countP_eq_zero]
  intro value member
  simpa using Option.isSome_iff_ne_none.mp (leave value member)

theorem staying_congr (same : values.map assignment.var? = others.map assignment.var?) :
    staying assignment values = staying assignment others := by
  have counts := congrArg (List.countP Option.isNone) same
  rwa [List.countP_map, List.countP_map] at counts

/-- The values that stay are popped, as far as there are any. -/
theorem staying_drop (count : Nat) (tags : Stack) :
    staying assignment (tags.drop count) =
      staying assignment tags - staying assignment (topmost count tags) := by
  induction count generalizing tags with
  | zero => rfl
  | succ count ih =>
      cases tags with
      | nil => simp
      | cons tag tags =>
          have others := ih tags
          rw [List.drop_succ_cons, topmost, staying_cons tag, staying_cons (top (tag :: tags))]
          simp only [top, List.headD_cons, List.tail_cons]
          omega

theorem staying_tail (tags : Stack) :
    staying assignment tags.tail =
      staying assignment tags - if assignment.var? (valueAt tags 0) = none then 1 else 0 := by
  cases tags with
  | nil => simp
  | cons tag tags => by_cases stays : assignment.var? tag = none <;> simp [staying, stays]

end Staying

section Ops

variable {op new : Op}

/-- What an op leaves on the stack in the place of its operands. -/
def outputs (site : Site) (op : Op) (tags : Stack) : List Value :=
  match op with
  | .swap => [valueAt tags 1, valueAt tags 0]
  | .dup => [.pushed site, valueAt tags 0]
  | _ => List.replicate op.pushes (.pushed site)

/-- An op leaves what it has popped and what it pushes of its own. -/
theorem mem_outputs {value : Value} (member : value ∈ outputs site op tags) :
    value ∈ topmost op.pops tags ∨ value = .pushed site ∧ op.produces = true := by
  cases op with
  | swap =>
      left
      simpa [outputs, topmost_eq_map_valueAt, List.range_succ, Op.pops, or_comm] using member
  | dup =>
      rcases List.mem_pair.mp member with rfl | rfl
      · exact .inr ⟨rfl, rfl⟩
      · exact .inl (mem_topmost.mpr ⟨0, Nat.one_pos, rfl⟩)
  | nop | pop | set | store x y value | varSet var | assign var value | output format
  | print value format | printText text | inputVar var format => cases member
  | push value | math operator | not | get | load x y | varGet var | input format =>
      exact .inr ⟨List.mem_singleton.mp member, rfl⟩

theorem tagsAfterOp_eq (site : Site) (op : Op) (tags : Stack) :
    tagsAfterOp site op tags = outputs site op tags ++ tags.drop op.pops := by
  cases op <;> rfl

theorem length_tagsAfterOp_eq (site : Site) (op : Op) (tags : Stack) :
    (tagsAfterOp site op tags).length = op.depthAfter tags.length := by
  have outputs : (outputs site op tags).length = op.pushes := by
    cases op <;> simp [outputs, Op.pushes]
  rw [tagsAfterOp_eq, List.length_append, outputs, List.length_drop, Op.depthAfter, Nat.add_comm]

/-- The op pops the operands that stay and pushes the results that stay. -/
structure Sized (assignment : Assignment) (site : Site) (op : Op) (first : Stack) (new : Op) :
    Prop where
  pops : new.pops = staying assignment (topmost op.pops first)
  pushes : new.pushes = staying assignment (outputs site op first)

theorem sized_self (operands : ∀ value ∈ topmost op.pops first, assignment.var? value = none)
    (results : ∀ value ∈ outputs site op first, assignment.var? value = none) :
    Sized assignment site op first op where
  pops := by rw [staying_of_none operands, length_topmost]
  pushes := by
    rw [staying_of_none results]
    cases op <;> simp [outputs, Op.pushes]

theorem sized_moved
    (operands : ∀ value ∈ topmost op.pops first, (assignment.var? value).isSome = true)
    (results : ∀ value ∈ outputs site op first, (assignment.var? value).isSome = true)
    (pops : new.pops = 0) (pushes : new.pushes = 0) : Sized assignment site op first new where
  pops := by rw [pops, staying_of_some operands]
  pushes := by rw [pushes, staying_of_some results]

theorem map_var?_of_mapM {values : List Value} {vars : List VarId}
    (found : values.mapM assignment.var? = some vars) :
    values.map assignment.var? = vars.map some := by
  induction values generalizing vars with
  | nil =>
      cases found
      rfl
  | cons value values ih =>
      simp only [List.mapM_cons, Option.bind_eq_bind, Option.bind_eq_some_iff, Option.pure_def,
        Option.some.injEq] at found
      rcases found with ⟨var, hasVar, others, rest, rfl⟩
      rw [List.map_cons, List.map_cons, hasVar, ih rest]

theorem isSome_of_map {values : List Value} {vars : List VarId}
    (moved : values.map assignment.var? = vars.map some) :
    ∀ value ∈ values, (assignment.var? value).isSome = true := by
  intro value member
  have listed : assignment.var? value ∈ vars.map some := moved ▸ List.mem_map_of_mem member
  rcases List.mem_map.mp listed with ⟨var, -, same⟩
  rw [← same, Option.isSome_some]

theorem Assignment.allOrNone_cases {values : List Value} {result : Option (List VarId)}
    (decided : assignment.allOrNone site op values = .ok result) :
    (result = none ∧ ∀ value ∈ values, assignment.var? value = none) ∨
      ∃ vars, result = some vars ∧ values.map assignment.var? = vars.map some := by
  unfold allOrNone at decided
  split at decided
  · rename_i vars found
    cases decided
    exact .inr ⟨vars, rfl, map_var?_of_mapM found⟩
  · split_ifs at decided with unassigned
    cases decided
    refine .inl ⟨rfl, fun value member => ?_⟩
    simpa using List.all_eq_true.mp unassigned value member

/-- An op that computes stays with its operands and its result on the stack. Otherwise all operands
are in variables, and it becomes a store of these or an assignment of what it computes from them. -/
theorem Assignment.compute_cases {use : Use} (changed : assignment.compute site op use = .ok new) :
    (new = op ∧ (∀ value ∈ use.inputs, assignment.var? value = none) ∧
        assignment.var? (.pushed site) = none) ∨
      ∃ vars, use.inputs.map assignment.var? = vars.map some ∧
        ((∃ y x value, op = .set ∧ vars = [y, x, value] ∧
            new = .store (.var x) (.var y) (.var value)) ∨
          ∃ var value, assignment.var? (.pushed site) = some var ∧ result? op vars = some value ∧
            new = .assign var value) := by
  unfold compute at changed
  rcases bind_eq_ok_iff.mp changed with ⟨vars?, decided, changed⟩
  rcases allOrNone_cases decided with ⟨rfl, stay⟩ | ⟨vars, rfl, leave⟩
  · cases result : assignment.var? (.pushed site) with
    | none =>
        simp only [result] at changed
        cases changed
        exact .inl ⟨rfl, stay, rfl⟩
    | some var =>
        simp only [result] at changed
        cases changed
  · refine .inr ⟨vars, leave, ?_⟩
    dsimp only at changed
    split at changed
    · cases changed
      exact .inl ⟨_, _, _, rfl, rfl, rfl⟩
    · split at changed
      · rename_i var value result computed
        cases changed
        exact .inr ⟨var, value, result, computed, rfl⟩
      · cases changed

theorem sized_of_compute
    (computes : outputs site op first = List.replicate op.pushes (.pushed site))
    (silent : op = .set → op.pushes = 0)
    (changed : assignment.compute site op (ofOp site op first) = .ok new) :
    Sized assignment site op first new := by
  rcases Assignment.compute_cases changed with ⟨rfl, operands, result⟩ | ⟨vars, moved, form⟩
  · rw [inputs_ofOp] at operands
    apply sized_self operands
    intro value member
    rw [computes] at member
    rw [List.eq_of_mem_replicate member, result]
  · rw [inputs_ofOp] at moved
    have operands := isSome_of_map moved
    rcases form with ⟨y, x, value, isSet, -, rfl⟩ | ⟨var, value, result, -, rfl⟩
    · refine sized_moved operands ?_ rfl rfl
      rw [computes, silent isSet]
      simp
    · refine sized_moved operands ?_ rfl rfl
      intro pushed member
      rw [computes] at member
      rw [List.eq_of_mem_replicate member, result, Option.isSome_some]

/-- Every op that is changed pops and pushes what stays. -/
theorem sized_of_op (known : assignment.use? site = some (ofOp site op first))
    (changed : assignment.op site op = .ok new) : Sized assignment site op first new := by
  have inputs : (ofOp site op first).inputs = topmost op.pops first := inputs_ofOp op
  simp only [Assignment.op, known] at changed
  cases op with
  | nop | printText text | inputVar var format | store x y value | assign var value
  | print value format =>
      cases changed
      exact ⟨rfl, rfl⟩
  | push value | load x y | varGet source | input format =>
      cases result : assignment.var? (.pushed site) <;>
        simp only [result, Option.elim] at changed <;> cases changed <;>
        exact ⟨rfl, by simp [staying, outputs, Op.pushes, result]⟩
  | pop | varSet target | output format =>
      cases input : assignment.var? (top first) <;>
        simp [inputs, topmost, Op.pops, input] at changed <;> cases changed <;>
        exact ⟨by simp [staying, topmost, Op.pops, input], rfl⟩
  | swap =>
      rcases bind_eq_ok_iff.mp changed with ⟨vars?, decided, changed⟩
      rw [inputs] at decided
      have exchanged {value : Value} (member : value ∈ outputs site .swap first) :
          value ∈ topmost 2 first :=
        (mem_outputs member).resolve_right (by simp [Op.produces])
      rcases Assignment.allOrNone_cases decided with ⟨rfl, stay⟩ | ⟨vars, rfl, leave⟩
      · cases changed
        exact sized_self stay fun value member => stay value (exchanged member)
      · cases changed
        have leave := isSome_of_map leave
        exact sized_moved leave (fun value member => leave value (exchanged member)) rfl rfl
  | dup =>
      cases input : assignment.var? (top first) <;>
        cases result : assignment.var? (.pushed site) <;>
        simp [inputs, topmost, Op.pops, input, result] at changed <;> cases changed <;>
        refine ⟨by simp [staying, topmost, Op.pops, input], ?_⟩ <;>
        simp [staying, outputs, Op.pushes, ← top_eq_valueAt, input, result]
  | math operator | not | get | set =>
      exact sized_of_compute rfl (by simp [Op.pushes]) changed

theorem staying_outputs_congr (same : ∀ place < op.pops, assignment.var? (valueAt first place) =
    assignment.var? (valueAt tags place)) :
    staying assignment (outputs site op first) = staying assignment (outputs site op tags) := by
  apply staying_congr
  cases op with
  | swap => simp [outputs, same 0 (by decide), same 1 (by decide)]
  | dup => simp [outputs, same 0 (by decide)]
  | nop | push value | pop | math operator | not | get | set | load x y | store x y value
  | varGet var | varSet var | assign var value | output format | print value format | printText text
  | input format | inputVar var format => rfl

/-- The new op leaves as many values as stay of those that the op leaves. -/
theorem Sized.depthAfter (sized : Sized assignment site op first new)
    (same : ∀ place < op.pops,
      assignment.var? (valueAt first place) = assignment.var? (valueAt tags place)) :
    new.depthAfter (staying assignment tags) = staying assignment (tagsAfterOp site op tags) := by
  have operands : staying assignment (topmost op.pops first) =
      staying assignment (topmost op.pops tags) := by
    apply staying_congr
    simpa [topmost_eq_map_valueAt] using same
  have results : staying assignment (outputs site op first) =
      staying assignment (outputs site op tags) :=
    staying_outputs_congr same
  rw [Op.depthAfter, sized.pops, sized.pushes, operands, results, tagsAfterOp_eq, staying_append,
    staying_drop]
  exact Nat.add_comm _ _

end Ops

/-- Tags that agree with a symbolic stack agree with what a run of ops makes of it. -/
theorem Agree.tagsAfterOps (agree : Agree assignment tags second) (index : Nat) (ops : List Op) :
    Agree assignment (tagsAfterOps id index ops tags)
      (stackAfter second (ofOps id index ops second)) := by
  induction ops generalizing index tags second with
  | nil => exact agree
  | cons op ops ih =>
      rw [ofOps, stackAfter_cons]
      exact ih (agree.tagsAfterOp ⟨id, index⟩ op) (index + 1)

theorem Agree.tagsAfterKind (agree : Agree assignment tags second) (kind : Kind) :
    Agree assignment (tagsAfterKind id kind tags) (stackAfter second (ofKind id kind second)) := by
  have popped :
      (if kind.exit = .popped then [top (stackAfter second (ofOps id 0 kind.ops second))]
        else []).length =
      if kind.popsTest then 1 else 0 := by
    simp only [Kind.popsTest, decide_eq_true_eq]
    split_ifs <;> rfl
  simp only [ofKind, stackAfter_append_single, ofExit, popped]
  exact (agree.tagsAfterOps 0 kind.ops).drop _

theorem length_tagsAfterOps_eq (index : Nat) (ops : List Op) (tags : Stack) :
    (tagsAfterOps id index ops tags).length =
      ops.foldl (fun current op => op.depthAfter current) tags.length := by
  induction ops generalizing index tags with
  | nil => rfl
  | cons op ops ih => rw [Promotion.tagsAfterOps, ih, length_tagsAfterOp_eq, List.foldl_cons]

section Tags

variable {other : Site}

/-- Tags come from the op or were there before. -/
theorem pushed_of_mem_tagsAfterOp {op : Op} (tagged : .pushed other ∈ tagsAfterOp site op tags) :
    .pushed other ∈ tags ∨ other = site := by
  rw [tagsAfterOp_eq] at tagged
  rcases List.mem_append.mp tagged with output | below
  · rcases mem_outputs output with operand | ⟨named, -⟩
    · exact .inl ((mem_or_underflow_of_mem_topmost operand).resolve_right (by simp))
    · exact .inr (Value.pushed.inj named)
  · exact .inl (List.mem_of_mem_drop below)

theorem pushed_of_mem_tagsAfterOps {index : Nat} {ops : List Op}
    (tagged : .pushed other ∈ tagsAfterOps id index ops tags) :
    .pushed other ∈ tags ∨ other.vertex = id ∧ other.index < index + ops.length := by
  induction ops generalizing index tags with
  | nil => exact .inl tagged
  | cons op ops ih =>
      rw [List.length_cons]
      rcases ih tagged with middle | ⟨here, bound⟩
      · rcases pushed_of_mem_tagsAfterOp middle with old | rfl
        · exact .inl old
        · exact .inr ⟨rfl, by simp⟩
      · exact .inr ⟨here, by omega⟩

theorem pushed_of_mem_tagsAfterKind {kind : Kind}
    (tagged : .pushed other ∈ tagsAfterKind id kind tags) :
    .pushed other ∈ tags ∨ other.vertex = id := by
  rcases pushed_of_mem_tagsAfterOps (List.mem_of_mem_drop tagged) with old | ⟨here, -⟩
  · exact .inl old
  · exact .inr here

end Tags

section Vertices

variable {index : Nat} {ops body : List Op} {kind new : Kind}

/-- The new ops go as deep as the values that stay, and the old ones as deep as all values. -/
theorem depth_of_ops (changed : assignment.ops id index ops = .ok body)
    (known : ∀ use ∈ ofOps id index ops first, assignment.use? use.site = some use)
    (compatible : CompatibleAll assignment (ofOps id index ops first) (ofOps id index ops second))
    (agree : Agree assignment tags second) :
    body.foldl (fun current op => op.depthAfter current) (staying assignment tags) =
        staying assignment (tagsAfterOps id index ops tags) ∧
      Kind.peakOf body (staying assignment tags) ≤ Kind.peakOf ops tags.length := by
  induction ops generalizing index body first second tags with
  | nil =>
      cases changed
      exact ⟨rfl, staying_le_length tags⟩
  | cons op ops ih =>
      rcases bind_eq_ok_iff.mp changed with ⟨new, changedOp, rest⟩
      rcases bind_eq_ok_iff.mp rest with ⟨others, changedOps, same⟩
      cases same
      have opKnown : assignment.use? ⟨id, index⟩ = some (ofOp ⟨id, index⟩ op first) := by
        simpa only [site_ofOp] using known _ List.mem_cons_self
      have opCompatible : Compatible assignment (ofOp ⟨id, index⟩ op first)
          (ofOp ⟨id, index⟩ op second) :=
        compatible 0 rfl rfl
      have after := (sized_of_op opKnown changedOp).depthAfter (opCompatible.operands agree)
      rcases ih changedOps (fun use member => known use (List.mem_cons_of_mem _ member))
        (fun place _ _ found otherFound => compatible (place + 1) found otherFound)
        (agree.tagsAfterOp ⟨id, index⟩ op) with ⟨depth, peak⟩
      rw [length_tagsAfterOp_eq] at peak
      constructor
      · rw [List.foldl_cons, after, depth, Promotion.tagsAfterOps]
      · rw [Kind.peakOf, Kind.peakOf, after]
        exact max_le_max (staying_le_length tags) peak

theorem Assignment.exists_ops (changed : assignment.kind id kind = .ok new) :
    ∃ body, assignment.ops id 0 kind.ops = .ok body ∧ new.ops = body ∧
      new.exit = assignment.exit ⟨id, kind.ops.length⟩ kind.exit := by
  have body : ∃ body, assignment.ops id 0 kind.ops = .ok body := by
    cases kind with
    | single op =>
        rcases bind_eq_ok_iff.mp changed with ⟨changedOp, found, -⟩
        exact ⟨[changedOp], bind_eq_ok_iff.mpr ⟨changedOp, found, rfl⟩⟩
    | block ops | decisionBlock ops | exprDecisionBlock ops test =>
        rcases bind_eq_ok_iff.mp changed with ⟨body, found, -⟩
        exact ⟨body, found⟩
    | decision | exprDecision test | random => exact ⟨[], rfl⟩
  rcases body with ⟨body, changedOps⟩
  rcases exists_kind changedOps with ⟨same, found, ops, exit⟩
  cases found.symm.trans changed
  exact ⟨body, changedOps, ops, exit⟩

theorem depth_of_kind (changed : assignment.kind id kind = .ok new)
    (known : ∀ use ∈ ofKind id kind first, assignment.use? use.site = some use)
    (compatible : CompatibleAll assignment (ofKind id kind first) (ofKind id kind second))
    (agree : Agree assignment tags second) :
    new.depthAfter (staying assignment tags) = staying assignment (tagsAfterKind id kind tags) ∧
      new.peak (staying assignment tags) ≤ kind.peak tags.length := by
  rcases Assignment.exists_ops changed with ⟨body, changedOps, sameOps, exit⟩
  rcases compatible.kind with ⟨opsCompatible, exitCompatible⟩
  rcases depth_of_ops changedOps (fun use member => known use (List.mem_append_left _ member))
    opsCompatible agree with ⟨depth, peak⟩
  constructor
  · rw [Kind.depthAfter, Kind.depthAfterOps, sameOps, depth, tagsAfterKind, Kind.popsTest,
      Kind.popsTest, exit]
    cases leaves : kind.exit with
    | next | tested test | random => simp [Assignment.exit]
    | popped =>
        have exitKnown := known _ (List.mem_append_right _ (List.mem_singleton_self _))
        have inputs := exitCompatible.inputs
        simp only [leaves, ofExit, if_true, List.map_cons, List.cons.injEq,
          top_eq_valueAt] at exitKnown inputs
        have popped : assignment.popped? ⟨id, kind.ops.length⟩ =
            assignment.var? (valueAt (tagsAfterOps id 0 kind.ops tags) 0) := by
          rw [agree.tagsAfterOps, ← inputs.1, Assignment.popped?, exitKnown]
          rfl
        rw [Assignment.exit, popped]
        cases input : assignment.var? (valueAt (tagsAfterOps id 0 kind.ops tags) 0) <;>
          simp [staying_tail, input]
  · rwa [Kind.peak, Kind.peak, sameOps]

theorem length_tagsAfterKind_eq (kind : Kind) (tags : Stack) :
    (tagsAfterKind id kind tags).length = kind.depthAfter tags.length := by
  rw [tagsAfterKind, List.length_drop, length_tagsAfterOps_eq, Kind.depthAfter, Kind.depthAfterOps]

end Vertices

namespace Facts

variable {facts : Facts} {root : VertexId} {path : List VertexId} {depth : Nat}

/-- The old program may be where the new one is, with tags that agree with a visit. The tags name
vertices of the path, and the new program is as deep as those of the tags that stay. -/
structure Shadows (facts : Facts) (path : List VertexId) (id : VertexId) (depth : Nat)
    (visit : Visit) (tags : Stack) : Prop where
  visited : visit ∈ facts.visits
  here : visit.vertex = id
  agree : Agree facts.choice tags visit.stack
  entered : facts.graph.Enters path id tags.length
  passed : ∀ {site}, .pushed site ∈ tags → site.vertex ∈ path
  depth : depth = staying facts.choice tags

theorem Shadows.compatible {visit first : Visit} {tags : Stack} {vertex : Vertex}
    (shadows : facts.Shadows path id depth visit tags)
    (found : facts.graph.vertex? id = some vertex)
    (isFirst : facts.visits.find? (·.vertex = id) = some first) :
    CompatibleAll facts.choice (ofKind id vertex.kind first.stack)
      (ofKind id vertex.kind visit.stack) :=
  compatible_record found isFirst shadows.visited shadows.here

variable (explored : Explored facts.graph facts.visits)

include explored

theorem Shadows.change {visit : Visit} {tags : Stack} {vertex : Vertex}
    (shadows : facts.Shadows path id depth visit tags)
    (found : facts.graph.vertex? id = some vertex) :
    (facts.change id vertex.kind).depthAfter depth =
      staying facts.choice (tagsAfterKind id vertex.kind tags) ∧
      (facts.change id vertex.kind).peak depth ≤ vertex.kind.peak tags.length := by
  have isVisited : ∃ visit ∈ facts.visits, visit.vertex = id :=
    ⟨visit, shadows.visited, shadows.here⟩
  rcases exists_first isVisited with ⟨first, isFirst⟩
  rw [shadows.depth]
  apply depth_of_kind (change_spec explored found isVisited).1 (use?_of_record found isFirst).2
  · exact shadows.compatible found isFirst
  · exact shadows.agree

theorem Shadows.child {visit : Visit} {tags : Stack} {vertex : Vertex} {next : VertexId}
    (shadows : facts.Shadows path id depth visit tags)
    (found : facts.graph.vertex? id = some vertex) (member : next ∈ vertex.children) :
    ∃ arrived,
      facts.Shadows (path ++ [id]) next ((facts.change id vertex.kind).depthAfter depth) arrived
        (tagsAfterKind id vertex.kind tags) := by
  have after : Agree facts.choice (tagsAfterKind id vertex.kind tags)
      (stackAfter visit.stack (visit.uses facts.graph)) := by
    rcases shadows.here
    rw [uses_eq found]
    exact shadows.agree.tagsAfterKind vertex.kind
  have leads : ⟨next, stackAfter visit.stack (visit.uses facts.graph)⟩ ∈
      visit.arrivals facts.graph := by
    refine List.mem_map.mpr ⟨next, ?_, rfl⟩
    rwa [shadows.here, Graph.children_eq found]
  rcases exists_visit_of_arrival explored shadows.visited leads with
    ⟨arrived, inVisits, atNext, arrivedAgree⟩
  refine ⟨arrived, inVisits, atNext, fun place => (after place).trans (arrivedAgree place),
    ?_, ?_, ?_⟩
  · rw [length_tagsAfterKind_eq]
    exact .child shadows.entered found member
  · intro site tagged
    rcases pushed_of_mem_tagsAfterKind tagged with old | here
    · exact List.mem_append_left _ (shadows.passed old)
    · exact List.mem_append_right _ (List.mem_singleton.mpr here)
  · exact (shadows.change explored found).1

theorem exists_shadows (start : facts.graph.root = some root) (begins : ⟨root, []⟩ ∈ facts.visits)
    (rekinded : facts.graph.Rekinded facts.promotion facts.change)
    (entered : facts.promotion.Enters path id depth) :
    ∃ visit tags, facts.Shadows path id depth visit tags := by
  induction entered with
  | root isRoot =>
      rw [rekinded.root, start, Option.some.injEq] at isRoot
      exact ⟨_, [], begins, isRoot, fun _ => rfl, .root (by rw [start, isRoot]), by simp, rfl⟩
  | child _ twinFound member ih =>
      rcases ih with ⟨visit, tags, shadows⟩
      rcases rekinded.exists_vertex twinFound with ⟨vertex, found, rfl⟩
      rcases shadows.child explored found member with ⟨arrived, after⟩
      exact ⟨arrived, _, after⟩

/-- The new program goes no deeper than the old one along the same path. -/
theorem noDeeper_promotion (start : facts.graph.root = some root)
    (begins : ⟨root, []⟩ ∈ facts.visits)
    (rekinded : facts.graph.Rekinded facts.promotion facts.change) :
    facts.graph.NoDeeper facts.promotion := by
  rintro peak ⟨path, id, twin, depth, entered, twinFound, rfl⟩
  rcases exists_shadows explored start begins rekinded entered with ⟨visit, tags, shadows⟩
  rcases rekinded.exists_vertex twinFound with ⟨vertex, found, rfl⟩
  have peak := (shadows.change explored found).2
  exact ⟨_, ⟨path, id, vertex, tags.length, shadows.entered, found, rfl⟩, peak⟩

end Facts

end StackFlow.Promotion

namespace StackFlow.Graph

open Promotion

variable {graph other : Graph}

theorem promoteValues_noDeeper (valid : graph.Valid) {limit count : Nat}
    (result : graph.promoteValues limit = .ok (other, count)) :
    other.Valid ∧ graph.NoDeeper other := by
  rcases exists_promotion valid limit with
    ⟨facts, root, ⟨rfl, -, begins, -, explored, promoted⟩, start, -⟩
  cases promoted.symm.trans result
  split
  · exact ⟨valid, .refl _⟩
  · have rekinded := Facts.promotion_rekinded explored
    exact ⟨rekinded.valid valid, Facts.noDeeper_promotion explored start begins rekinded⟩

end StackFlow.Graph
