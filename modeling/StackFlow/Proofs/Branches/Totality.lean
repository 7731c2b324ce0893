import Mathlib
import StackFlow.Proofs.Branches

/-!
# The whole pass over the branches

In a consistent graph no fold fails: every edge that is removed leads to a vertex, and a decision
has two edges that can be exchanged. A fold leaves a consistent graph, so the pass goes through all
vertices and always gives a graph and a count. The count is zero only if no branch of the graph can
be folded.
-/

namespace StackFlow

theorem Kind.exists_collapsed {kind : Kind} (split : kind.isSplit = true) :
    ∃ straight, kind.collapsed? = some straight := by
  cases kind with
  | single op => cases split
  | block ops => cases split
  | decision => exact ⟨_, rfl⟩
  | exprDecision test => exact ⟨_, rfl⟩
  | decisionBlock ops => exact ⟨_, rfl⟩
  | exprDecisionBlock ops test => exact ⟨_, rfl⟩
  | random => exact ⟨_, rfl⟩

theorem Kind.unnegated?_eq_none {kind : Kind} (plain : kind.unnegated? = none) (operand : Expr) :
    kind.test? ≠ some (.not operand) := by
  intro tested
  rw [test?_eq_some_iff] at tested
  cases kind <;> cases tested <;> cases plain

/-- A branch has edges. -/
theorem Kind.Fits.ne_nil {kind : Kind} {children : List VertexId} (fits : kind.Fits children)
    (split : kind.isSplit = true) : children ≠ [] := by
  rintro rfl
  unfold Fits arity? at fits
  unfold isSplit arity? at split
  cases exit : kind.exit <;> simp [exit, Exit.arity?] at fits split

/-- The vertex decides on a literal. -/
def Vertex.TestsLiteral (vertex : Vertex) : Prop :=
  ∃ value, vertex.kind.test? = some (.const value)

/-- The vertex decides on a negation. -/
def Vertex.TestsNegation (vertex : Vertex) : Prop :=
  ∃ operand, vertex.kind.test? = some (.not operand)

/-- The edges of the branch all lead to one vertex. -/
def Vertex.Uniform (vertex : Vertex) : Prop :=
  vertex.kind.isSplit = true ∧ ∃ keep, ∀ child ∈ vertex.children, child = keep

namespace Graph

variable {graph other : Graph} {id : VertexId} {vertex : Vertex}

/-- The decision leads to two equal vertices that are entered from it only and go on to the same
place. -/
def LeadsToTwins (graph : Graph) (id : VertexId) (vertex : Vertex) : Prop :=
  ∃ onTrue onFalse next first second, vertex.kind.isDecision = true ∧
    vertex.children = [onTrue, onFalse] ∧
    onTrue ≠ onFalse ∧ graph.vertex? onTrue = some first ∧ graph.vertex? onFalse = some second ∧
    first.kind = second.kind ∧ first.kind.isSplit = false ∧ first.parents = [id] ∧
      second.parents = [id] ∧
    first.children = [next] ∧ second.children = [next] ∧ next ≠ onTrue ∧ next ≠ onFalse

/-- The branch at the vertex can be folded. -/
def Foldable (graph : Graph) (id : VertexId) (vertex : Vertex) : Prop :=
  vertex.TestsLiteral ∨ vertex.TestsNegation ∨ vertex.Uniform ∨ graph.LeadsToTwins id vertex

theorem exists_collapse (consistent : graph.Consistent) (found : graph.vertex? id = some vertex)
    (split : vertex.kind.isSplit = true) (keep : VertexId) :
    ∃ collapsed, graph.collapse? id vertex keep = .ok (some collapsed) := by
  rcases Kind.exists_collapsed split with ⟨straight, kind⟩
  have live : (vertex.children.erase keep).find? (!graph.contains ·) = none := by
    rw [List.find?_eq_none]
    intro child member
    have edge : child ∈ graph.children id := children_eq found ▸ List.mem_of_mem_erase member
    simp [consistent.child_live edge]
  exact ⟨_, by rw [collapse?, kind]; dsimp only; rw [live]⟩

/-- A decision has two edges. -/
theorem exists_children (consistent : graph.Consistent) (found : graph.vertex? id = some vertex)
    (decision : vertex.kind.isDecision = true) :
    ∃ onTrue onFalse, vertex.children = [onTrue, onFalse] := by
  have fits := consistent.fits found
  rw [Kind.Fits, Kind.arity?_of_isDecision decision] at fits
  exact List.length_eq_two.mp fits

/-- In a consistent graph the fold never fails, and it finds nothing to do only where the condition
does not hold. -/
def FoldsWhere (fold : Fold) (condition : Graph → VertexId → Vertex → Prop) : Prop :=
  ∀ ⦃graph id vertex⦄, graph.Consistent → graph.vertex? id = some vertex →
    (∃ folded, fold graph id vertex = .ok (some folded)) ∨
      (fold graph id vertex = .ok none ∧ ¬condition graph id vertex)

theorem foldsWhere_foldConstant? :
    FoldsWhere foldConstant? fun _ _ vertex => vertex.TestsLiteral := by
  intro graph id vertex consistent found
  unfold foldConstant?
  split
  · rename_i value onTrue onFalse rest constant children
    rcases Option.bind_eq_some_iff.mp constant with ⟨test, tested, -⟩
    have split : vertex.kind.isSplit = true := by
      simp [Kind.isSplit, Kind.arity?, Kind.test?_eq_some_iff.mp tested, Exit.arity?]
    exact .inl (exists_collapse consistent found split _)
  · rename_i others
    refine .inr ⟨rfl, ?_⟩
    rintro ⟨value, tested⟩
    have decision : vertex.kind.isDecision = true := by
      simp [Kind.isDecision, Kind.test?_eq_some_iff.mp tested]
    rcases exists_children consistent found decision with ⟨onTrue, onFalse, children⟩
    exact others value onTrue onFalse [] (by rw [tested]; rfl) children

theorem foldsWhere_foldNegated? :
    FoldsWhere foldNegated? fun _ _ vertex => vertex.TestsNegation := by
  intro graph id vertex consistent found
  unfold foldNegated?
  split
  · rename_i none
    refine .inr ⟨rfl, ?_⟩
    rintro ⟨operand, tested⟩
    exact Kind.unnegated?_eq_none none operand tested
  · exact .inl ⟨_, rfl⟩
  · -- There are always two edges to exchange.
    rename_i kind unnegated others
    rcases Kind.unnegated?_spec unnegated with ⟨operand, -, exit, -⟩
    rcases exists_children consistent found (by simp [Kind.isDecision, exit]) with
      ⟨onTrue, onFalse, children⟩
    exact absurd children (others onTrue onFalse [])

theorem foldsWhere_foldUniform? : FoldsWhere foldUniform? fun _ _ vertex => vertex.Uniform := by
  intro graph id vertex consistent found
  unfold foldUniform?
  split
  · rename_i first rest split children
    by_cases uniform : rest.all (· = first) = true
    · rw [if_pos uniform]
      exact .inl (exists_collapse consistent found split first)
    · rw [if_neg uniform]
      refine .inr ⟨rfl, ?_⟩
      rintro ⟨-, keep, same⟩
      apply uniform
      rw [List.all_eq_true]
      intro child member
      have isKept : child = keep := same child (by simp [children, member])
      have firstKept : first = keep := same first (by simp [children])
      simp [isKept, firstKept]
  · rename_i others
    refine .inr ⟨rfl, ?_⟩
    rintro ⟨split, -⟩
    rcases List.exists_cons_of_ne_nil ((consistent.fits found).ne_nil split) with
      ⟨first, rest, children⟩
    exact others first rest split children

theorem mem_children_of_rejoin? {onTrue onFalse next : VertexId} {first second : Vertex}
    (rejoins : rejoin? id onTrue onFalse first second = some next) : next ∈ first.children := by
  unfold rejoin? at rejoins
  split at rejoins
  · rename_i target leads
    split_ifs at rejoins
    cases rejoins
    simp [leads]
  · cases rejoins

theorem rejoin?_of_detours {onTrue onFalse next : VertexId} {first second : Vertex}
    (kind : first.kind = second.kind) (straight : first.kind.isSplit = false)
    (firstEntry : first.parents = [id]) (secondEntry : second.parents = [id])
    (firstLeads : first.children = [next]) (secondLeads : second.children = [next])
    (trueApart : next ≠ onTrue) (falseApart : next ≠ onFalse) :
    rejoin? id onTrue onFalse first second = some next := by
  have secondStraight : second.kind.isSplit = false := kind ▸ straight
  simp [rejoin?, isDetour, firstLeads, secondLeads, firstEntry, secondEntry, kind, secondStraight,
    trueApart, falseApart]

/-- A decision between two vertices that are there. The vertex at which they meet again is there as
well, before and after the decision is collapsed. -/
theorem foldTwins?_cases (consistent : graph.Consistent) (found : graph.vertex? id = some vertex)
    (split : vertex.kind.isSplit = true) {onTrue onFalse : VertexId}
    (member : onTrue ∈ vertex.children) {first second : Vertex}
    (firstFound : graph.vertex? onTrue = some first)
    (secondFound : graph.vertex? onFalse = some second) :
    (∃ folded, graph.foldTwins? id vertex onTrue onFalse = .ok (some folded)) ∨
      (graph.foldTwins? id vertex onTrue onFalse = .ok none ∧
        rejoin? id onTrue onFalse first second = none) := by
  unfold foldTwins?
  rw [vertex_eq_ok_iff.mpr firstFound, vertex_eq_ok_iff.mpr secondFound]
  cases rejoins : rejoin? id onTrue onFalse first second with
  | none =>
      right
      simp [bind, Except.bind, rejoins]
  | some next =>
      left
      rcases exists_collapse consistent found split onTrue with ⟨collapsed, result⟩
      rcases collapsed_of_collapse? found member result with ⟨straight, collapse⟩
      have edge : next ∈ graph.children onTrue := by
        rw [children_eq firstFound]
        exact mem_children_of_rejoin? rejoins
      have live : collapsed.contains next = true :=
        (collapse.contains_eq next).trans (consistent.child_live edge)
      simp [bind, Except.bind, rejoins, result, live]

theorem foldsWhere_foldIdentical? : FoldsWhere foldIdentical? LeadsToTwins := by
  intro graph id vertex consistent found
  unfold foldIdentical?
  split
  · rename_i onTrue onFalse rest decision children
    by_cases same : onTrue = onFalse
    · rw [if_pos same]
      refine .inr ⟨rfl, ?_⟩
      rintro ⟨first, second, -, -, -, -, leads, apart, -⟩
      cases children.symm.trans leads
      exact apart same
    · rw [if_neg same]
      have live {child : VertexId} (member : child ∈ vertex.children) : ∃ target,
          graph.vertex? child = some target :=
        contains_iff.mp (consistent.child_live (children_eq found ▸ member))
      have member : onTrue ∈ vertex.children := by simp [children]
      have otherMember : onFalse ∈ vertex.children := by simp [children]
      rcases live member with ⟨first, firstFound⟩
      rcases live otherMember with ⟨second, secondFound⟩
      have split : vertex.kind.isSplit = true := by
        simp [Kind.isSplit, Kind.arity?_of_isDecision decision]
      refine (foldTwins?_cases consistent found split member firstFound secondFound).imp_right ?_
      rintro ⟨result, apart⟩
      refine ⟨result, ?_⟩
      rintro ⟨_, _, next, _, _, -, leads, -, isFirst, isSecond, kind, straight, firstEntry,
        secondEntry, firstLeads, secondLeads, trueApart, falseApart⟩
      cases children.symm.trans leads
      cases firstFound.symm.trans isFirst
      cases secondFound.symm.trans isSecond
      rw [rejoin?_of_detours kind straight firstEntry secondEntry firstLeads secondLeads trueApart
        falseApart] at apart
      cases apart
  · rename_i others
    refine .inr ⟨rfl, ?_⟩
    rintro ⟨onTrue, onFalse, -, -, -, decision, children, -⟩
    exact others onTrue onFalse [] decision children

theorem foldsWhere_nil : FoldsWhere (foldBy? · · · []) fun _ _ _ => False := by
  intro graph id vertex consistent found
  exact .inr ⟨rfl, not_false⟩

/-- The ways to fold a branch are tried in turn. -/
theorem FoldsWhere.cons {fold : Fold} {ways : List Fold}
    {first others : Graph → VertexId → Vertex → Prop} (folds : FoldsWhere fold first)
    (rest : FoldsWhere (foldBy? · · · ways) others) :
    FoldsWhere (foldBy? · · · (fold :: ways)) fun graph id vertex =>
      first graph id vertex ∨ others graph id vertex := by
  intro graph id vertex consistent found
  simp only [foldBy?]
  rcases folds consistent found with ⟨folded, result⟩ | ⟨nothing, fails⟩
  · exact .inl ⟨folded, by rw [result]⟩
  · rw [nothing]
    refine (rest consistent found).imp_right ?_
    rintro ⟨noneLeft, failsToo⟩
    exact ⟨noneLeft, not_or.mpr ⟨fails, failsToo⟩⟩

theorem foldsWhere_folds : FoldsWhere (foldBy? · · · folds) Foldable := by
  have ways := foldsWhere_foldConstant?.cons (foldsWhere_foldNegated?.cons
    (foldsWhere_foldUniform?.cons (foldsWhere_foldIdentical?.cons foldsWhere_nil)))
  intro graph id vertex consistent found
  simpa [Foldable, folds] using ways consistent found

theorem foldAt?_cases (consistent : graph.Consistent) (id : VertexId) :
    (∃ folded, graph.foldAt? id = .ok (some folded)) ∨
      (graph.foldAt? id = .ok none ∧ ∀ vertex, graph.vertex? id = some vertex →
        ¬graph.Foldable id vertex) := by
  unfold foldAt?
  cases found : graph.vertex? id with
  | none => exact .inr ⟨rfl, fun vertex isVertex => by cases isVertex⟩
  | some vertex =>
      refine (foldsWhere_folds consistent found).imp_right ?_
      rintro ⟨nothing, fails⟩
      refine ⟨nothing, ?_⟩
      rintro _ ⟨⟩
      exact fails

/-- Each fold leaves a consistent graph to the next. As long as there is none, the graph stays the
same. -/
theorem exists_foldEach (consistent : graph.Consistent) (ids : List VertexId) :
    ∃ other count, graph.foldEach ids = .ok (other, count) ∧
      (count = 0 → ∀ id ∈ ids, ∀ vertex, graph.vertex? id = some vertex →
        ¬graph.Foldable id vertex) := by
  induction ids generalizing graph with
  | nil => exact ⟨graph, 0, rfl, fun _ id member => by cases member⟩
  | cons id ids ih =>
      rcases foldAt?_cases consistent id with ⟨folded, result⟩ | ⟨nothing, fails⟩
      · have sound := (foldAt?_spec consistent result).folds consistent
        rcases ih sound.consistent with ⟨other, count, rest, -⟩
        refine ⟨other, count + 1, ?_, fun zero => absurd zero count.succ_ne_zero⟩
        exact bind_eq_ok_iff.mpr ⟨_, result, bind_eq_ok_iff.mpr ⟨_, rest, rfl⟩⟩
      · rcases ih consistent with ⟨other, count, rest, failsLater⟩
        refine ⟨other, count, bind_eq_ok_iff.mpr ⟨_, nothing, rest⟩, fun zero => ?_⟩
        rintro target (_ | ⟨_, member⟩)
        · exact fails
        · exact failsLater zero target member

theorem exists_foldBranches (valid : graph.Valid) :
    ∃ other count, graph.foldBranches = .ok (other, count) ∧
      (count = 0 → ∀ id vertex, graph.vertex? id = some vertex → ¬graph.Foldable id vertex) := by
  rcases valid_iff.mp valid with ⟨consistent, root, start, -, reaches⟩
  rcases exists_foldEach consistent graph.walk with ⟨folded, count, result, unfoldable⟩
  refine ⟨_, count, bind_eq_ok_iff.mpr ⟨_, result, rfl⟩, fun zero id vertex found => ?_⟩
  have reached : id ∈ graph.walk :=
    (mem_walk_iff start).mpr (reaches id (contains_iff.mpr ⟨vertex, found⟩))
  exact unfoldable zero id reached vertex found

/-- A root that the pass leaves was there after the last fold. -/
theorem behavesLike_foldBranches (consistent : graph.Consistent) {count : Nat}
    (result : graph.foldBranches = .ok (other, count)) {root : VertexId}
    (start : graph.root = some root) (live : other.contains root = true) :
    graph.BehavesLike other := by
  rcases foldBranches_cases consistent result with rfl | ⟨folded, folds, rfl⟩
  · exact .refl other
  · have foldedStart : folded.root = some root := folds.root.trans start
    have foldedLive : folded.contains root = true := by
      by_contra dead
      rw [contains_dropUnreachable_of_dead foldedStart (by simpa using dead)] at live
      cases live
    exact (folds.alike start foldedLive).trans
      (behavesLike_dropUnreachable folds.consistent foldedStart foldedLive)

/-- The pass always gives a graph for a valid one. If the root is still there, the program behaves
as before. The graph comes of folds, unless there is no branch to fold and nothing changes. -/
theorem foldBranches_keeps_behaviour (valid : graph.validate = .ok ()) :
    ∃ other count, graph.foldBranches = .ok (other, count) ∧ other.root = graph.root ∧
      (∀ root, graph.root = some root → other.contains root = true → graph.BehavesLike other) ∧
      ((count = 0 ∧ other = graph ∧ ∀ id vertex, graph.vertex? id = some vertex →
          ¬graph.Foldable id vertex) ∨
        (count ≠ 0 ∧ ∃ folded, Relation.TransGen Folding graph folded ∧
          other = folded.dropUnreachable)) := by
  rw [validate_eq_ok_iff] at valid
  have consistent := (valid_iff.mp valid).1
  rcases exists_foldBranches valid with ⟨other, count, result, unfoldable⟩
  refine ⟨other, count, result, ?_, fun root => behavesLike_foldBranches consistent result, ?_⟩
  · rcases foldBranches_cases consistent result with rfl | ⟨folded, folds, rfl⟩
    · rfl
    · exact folds.root
  · rcases foldBranches_run consistent result with ⟨zero, unchanged⟩ | folded
    · exact .inl ⟨zero, unchanged, unfoldable zero⟩
    · exact .inr folded

/-- Reads a number, decides four times without need and prints two numbers. -/
def needlessBranches : Graph where
  slots := #[
    some { kind := .single (.input .number), children := [⟨1⟩], parents := [⟨6⟩] },
    some { kind := .decision, children := [⟨2⟩, ⟨3⟩], parents := [⟨0⟩] },
    some { kind := .single (.push (.const 1)), children := [⟨4⟩], parents := [⟨1⟩] },
    some { kind := .single (.push (.const 1)), children := [⟨4⟩], parents := [⟨1⟩] },
    some { kind := .exprDecisionBlock [.output .number] (.not (.const 0)), children := [⟨5⟩, ⟨6⟩],
           parents := [⟨2⟩, ⟨3⟩] },
    some { kind := .random, children := [⟨7⟩, ⟨7⟩, ⟨7⟩, ⟨7⟩], parents := [⟨4⟩] },
    some { kind := .exprDecision (.const 3), children := [⟨7⟩, ⟨0⟩], parents := [⟨4⟩] },
    some { kind := .single (.output .number), parents := [⟨5⟩, ⟨5⟩, ⟨5⟩, ⟨5⟩, ⟨6⟩] }]
  root := some ⟨0⟩
  grid := .blank 0 0
  vars := #[]

/-- The same program after one pass, which exchanges the edges of the decision on the negation. -/
def foldedBranches : Graph where
  slots := #[
    some { kind := .single (.input .number), children := [⟨1⟩] },
    some { kind := .single .pop, children := [⟨2⟩], parents := [⟨0⟩] },
    some { kind := .single (.push (.const 1)), children := [⟨4⟩], parents := [⟨1⟩] },
    none,
    some { kind := .exprDecisionBlock [.output .number] (.const 0), children := [⟨6⟩, ⟨5⟩],
           parents := [⟨2⟩] },
    some { kind := .single .nop, children := [⟨7⟩], parents := [⟨4⟩] },
    some { kind := .single .nop, children := [⟨7⟩], parents := [⟨4⟩] },
    some { kind := .single (.output .number), parents := [⟨5⟩, ⟨6⟩] }]
  root := some ⟨0⟩
  grid := .blank 0 0
  vars := #[]

theorem foldBranches_keeps_behaviour_needlessBranches :
    needlessBranches.validate = .ok () ∧ needlessBranches.foldBranches = .ok (foldedBranches, 4) ∧
      needlessBranches.BehavesLike foldedBranches := by
  have valid : needlessBranches.validate = .ok () := by decide +kernel
  have result : needlessBranches.foldBranches = .ok (foldedBranches, 4) := by decide +kernel
  have live : foldedBranches.contains ⟨0⟩ = true := by decide +kernel
  rcases foldBranches_keeps_behaviour valid with ⟨other, count, folded, -, alike, -⟩
  cases result.symm.trans folded
  exact ⟨valid, result, alike ⟨0⟩ rfl live⟩

end Graph

end StackFlow
