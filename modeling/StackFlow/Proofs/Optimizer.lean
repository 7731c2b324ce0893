import Mathlib
import StackFlow.Optimizer
import StackFlow.Proofs.Branches
import StackFlow.Proofs.Cells
import StackFlow.Proofs.Depth.Exploration
import StackFlow.Proofs.Promotion.Soundness
import StackFlow.Proofs.Rule.Application

/-!
# The optimizer keeps the behaviour

Every pass keeps a graph well formed and its behaviour, with one exception. Folding
identical branches can remove the vertex at which the program starts. Such a graph
passes through the other passes unchanged in this respect, and the optimizer fails
on it at the latest when it looks for the depth of the stack. So what holds after
each pass is that the graph is as good as the original or that its root is lost,
and a result is given in the first case only.
-/

namespace StackFlow

namespace Graph

/-- The graph is well formed and behaves like the original, or its root is lost. -/
def Serves (graph original : Graph) : Prop :=
  (graph.WellFormed ∧ original.BehavesLike graph) ∨ graph.RootLost

namespace RootLost

variable {graph : Graph}

theorem vertex?_eq_none {root : VertexId} (dead : graph.contains root = false) :
    graph.vertex? root = none := by
  simpa [contains] using dead

theorem walk_eq {root : VertexId} (start : graph.root = some root)
    (dead : graph.contains root = false) : graph.walk = [root] := by
  have alone : graph.edges.next root = [] := children_eq_nil dead
  simp [walk, start, Digraph.search, Digraph.visit, alone, Digraph.Order.schedule]

/-- A rule finds nothing to replace. -/
theorem apply_eq (lost : graph.RootLost) (rule : Rule) : rule.apply graph = .ok (graph, 0) := by
  rcases lost with ⟨root, start, dead⟩
  have declined : rule.applyAt? graph root = .ok none := by
    simp [Rule.applyAt?, chain?, vertex?_eq_none dead, bind, Except.bind, pure, Except.pure]
  simp [Rule.apply, Rule.scan, walk_eq start dead, Rule.scanFrom, declined]

theorem saturate_eq (lost : graph.RootLost) (rule : Rule) (limit : Nat) :
    rule.saturate limit graph = .ok (graph, 0) := by
  cases limit with
  | zero => rfl
  | succ limit => simp [Rule.saturate, lost.apply_eq rule, bind, Except.bind]

theorem foldBranches_eq (lost : graph.RootLost) : graph.foldBranches = .ok (graph, 0) := by
  rcases lost with ⟨root, start, dead⟩
  simp [foldBranches, walk_eq start dead, foldEach, foldAt?, vertex?_eq_none dead, bind,
    Except.bind, pure, Except.pure]

theorem promoteCells (lost : graph.RootLost) : graph.promoteCells.1.RootLost := by
  rcases graph.promoteCells_eq with same | ⟨-, moved⟩
  · rwa [same]
  · rcases lost with ⟨root, start, dead⟩
    rw [moved]
    exact ⟨root, graph.withCells_rekinded.root.trans start,
      (graph.withCells_rekinded.contains root).trans dead⟩

theorem promoteValues_ne_ok (lost : graph.RootLost) (limit : Nat) {result : Graph × Nat} :
    graph.promoteValues limit ≠ .ok result := by
  rcases lost with ⟨root, start, dead⟩
  have fails : Promotion.visits graph limit root = .error (.unknownVertex root) := by
    rw [Promotion.visits, Promotion.explore,
      if_neg (by simp [Promotion.isClosed, Promotion.visitsOf]), if_neg (by simp [dead])]
  simp [promoteValues, start, fails, bind, Except.bind]

theorem stackSize_ne_ok (lost : graph.RootLost) {size : StackSize} :
    graph.stackSize ≠ .ok size := by
  rcases lost with ⟨root, start, dead⟩
  have nothing : (Depth.Exploration.start root).grows graph ⟨⟨root, 0⟩, none⟩ = false := by
    simp [Depth.Exploration.grows, Digraph.search, Digraph.visit]
  have fails : (Depth.Exploration.start root).advance graph =
      .finished (.error (.unknownVertex root)) := by
    simp only [Depth.Exploration.start] at nothing
    simp [Depth.Exploration.advance, Depth.Exploration.start, nothing, vertex?_eq_none dead]
  rw [stackSize_of_root start, Depth.Exploration.run_eq, fails]
  intro same
  cases same

end RootLost

namespace Serves

variable {graph other original : Graph}

theorem trans (serves : graph.Serves original)
    (keeps : graph.WellFormed → other.WellFormed ∧ graph.BehavesLike other)
    (lost : graph.RootLost → other.RootLost) : other.Serves original := by
  rcases serves with ⟨wellFormed, behaves⟩ | rootLost
  · exact .inl ⟨(keeps wellFormed).1, behaves.trans (keeps wellFormed).2⟩
  · exact .inr (lost rootLost)

theorem apply {rule : Rule} {applied : Nat} (serves : graph.Serves original) (sound : rule.Sound)
    (result : rule.apply graph = .ok (other, applied)) : other.Serves original := by
  refine serves.trans (fun wellFormed => rule.apply_spec sound wellFormed result) fun lost => ?_
  rw [lost.apply_eq rule] at result
  cases result
  exact lost

theorem saturate {rule : Rule} {limit total : Nat} (serves : graph.Serves original)
    (sound : rule.Sound) (result : rule.saturate limit graph = .ok (other, total)) :
    other.Serves original := by
  refine serves.trans (fun wellFormed => rule.saturate_spec sound wellFormed result) fun lost => ?_
  rw [lost.saturate_eq rule limit] at result
  cases result
  exact lost

theorem foldBranches {count : Nat} (serves : graph.Serves original)
    (result : graph.foldBranches = .ok (other, count)) : other.Serves original := by
  rcases serves with ⟨wellFormed, behaves⟩ | lost
  · rcases foldBranches_spec wellFormed result with ⟨otherFormed, same⟩ | lost
    · exact .inl ⟨otherFormed, behaves.trans same⟩
    · exact .inr lost
  · rw [lost.foldBranches_eq] at result
    cases result
    exact .inr lost

theorem promoteCells (serves : graph.Serves original) : graph.promoteCells.1.Serves original :=
  serves.trans promoteCells_spec RootLost.promoteCells

theorem promoteValues {limit count : Nat} (serves : graph.Serves original)
    (result : graph.promoteValues limit = .ok (other, count)) : other.Serves original := by
  refine serves.trans (fun wellFormed => ?_) fun lost =>
    absurd result (lost.promoteValues_ne_ok limit)
  rcases promoteValues_spec wellFormed limit with ⟨_, _, _, -, -, promoted, otherFormed, behaves, -⟩
  rw [promoted] at result
  cases result
  exact ⟨otherFormed, behaves⟩

end Serves

end Graph

namespace Optimizer

variable {config : Config} {original : Graph} {progress after : Progress} {changed : Bool}

theorem runPeephole_serves {rules : List Rule} (sound : ∀ rule ∈ rules, rule.Sound)
    (serves : progress.graph.Serves original)
    (result : runPeephole config rules progress = .ok (after, changed)) :
    after.graph.Serves original := by
  induction rules generalizing progress changed with
  | nil =>
      cases result
      exact serves
  | cons rule rules rest =>
      have others : ∀ other ∈ rules, other.Sound :=
        fun other member => sound other (List.mem_cons_of_mem _ member)
      rcases bind_eq_ok_iff.mp result with ⟨⟨graph, applied⟩, scanned, goesOn⟩
      have scannedServes := serves.apply (sound rule (List.mem_cons_self ..)) scanned
      dsimp only at goesOn
      split at goesOn
      · exact rest others scannedServes goesOn
      · rcases bind_eq_ok_iff.mp goesOn with ⟨_, -, goesOn⟩
        rcases bind_eq_ok_iff.mp goesOn with ⟨⟨final, _⟩, ends, same⟩
        cases same
        exact rest others scannedServes ends

theorem runBranches_serves (serves : progress.graph.Serves original)
    (result : runBranches config progress = .ok (after, changed)) :
    after.graph.Serves original := by
  rcases bind_eq_ok_iff.mp result with ⟨⟨graph, folded⟩, folding, goesOn⟩
  have foldedServes := serves.foldBranches folding
  dsimp only at goesOn
  split at goesOn
  · cases goesOn
    exact foldedServes
  · rcases bind_eq_ok_iff.mp goesOn with ⟨_, -, same⟩
    cases same
    exact foldedServes

theorem runCells_serves (serves : progress.graph.Serves original)
    (result : runCells config progress = .ok (after, changed)) : after.graph.Serves original := by
  dsimp only [runCells] at result
  split at result
  · cases result
    exact serves
  · rcases bind_eq_ok_iff.mp result with ⟨_, -, same⟩
    cases same
    exact serves.promoteCells

theorem optionally_serves {enabled : Bool} {pass : Progress → Except GraphError (Progress × Bool)}
    (result : optionally enabled pass progress = .ok (after, changed))
    (serves : progress.graph.Serves original)
    (passServes : pass progress = .ok (after, changed) → after.graph.Serves original) :
    after.graph.Serves original := by
  unfold optionally at result
  split at result
  · exact passServes result
  · cases result
    exact serves

theorem round_serves (serves : progress.graph.Serves original)
    (result : round config progress = .ok (after, changed)) : after.graph.Serves original := by
  rcases bind_eq_ok_iff.mp result with ⟨⟨first, replaced⟩, peephole, goesOn⟩
  rcases bind_eq_ok_iff.mp goesOn with ⟨⟨second, folded⟩, branches, goesOn⟩
  rcases bind_eq_ok_iff.mp goesOn with ⟨⟨third, promoted⟩, cells, same⟩
  cases same
  have firstServes : first.graph.Serves original :=
    optionally_serves peephole serves
      (runPeephole_serves (fun _ member => (Rule.reliable_of_mem_peephole member).sound) serves)
  have secondServes : second.graph.Serves original :=
    optionally_serves branches firstServes (runBranches_serves firstServes)
  exact optionally_serves cells secondServes (runCells_serves secondServes)

theorem simplify_serves {rounds : Nat} (serves : progress.graph.Serves original)
    (result : simplify config rounds progress = .ok (after, changed)) :
    after.graph.Serves original := by
  induction rounds generalizing progress with
  | zero =>
      cases result
      exact serves
  | succ rounds rest =>
      rcases bind_eq_ok_iff.mp result with ⟨⟨next, again⟩, one, goesOn⟩
      have nextServes := round_serves serves one
      dsimp only at goesOn
      split at goesOn
      · exact rest nextServes goesOn
      · cases goesOn
        exact nextServes

theorem runValues_serves (serves : progress.graph.Serves original)
    (result : runValues config progress = .ok (after, changed)) : after.graph.Serves original := by
  rcases bind_eq_ok_iff.mp result with ⟨⟨graph, values⟩, promotion, goesOn⟩
  have promotedServes := serves.promoteValues promotion
  dsimp only at goesOn
  split at goesOn
  · cases goesOn
    exact promotedServes
  · rcases bind_eq_ok_iff.mp goesOn with ⟨_, -, simplified⟩
    exact simplify_serves promotedServes simplified

theorem runFusion_serves {rules : List Rule} {fused : Nat} (sound : ∀ rule ∈ rules, rule.Sound)
    (serves : progress.graph.Serves original)
    (result : runFusion config rules progress = .ok (after, fused)) :
    after.graph.Serves original := by
  induction rules generalizing progress fused with
  | nil =>
      cases result
      exact serves
  | cons rule rules rest =>
      rcases bind_eq_ok_iff.mp result with ⟨⟨graph, applied⟩, saturated, goesOn⟩
      rcases bind_eq_ok_iff.mp goesOn with ⟨⟨final, others⟩, ends, same⟩
      cases same
      exact rest (fun other member => sound other (List.mem_cons_of_mem _ member))
        (serves.saturate (sound rule (List.mem_cons_self ..)) saturated) ends

theorem runBlocks_serves (serves : progress.graph.Serves original)
    (result : runBlocks config progress = .ok after) : after.graph.Serves original := by
  rcases bind_eq_ok_iff.mp result with ⟨⟨final, fused⟩, fusion, goesOn⟩
  have fusedServes :=
    runFusion_serves (fun _ member => (Rule.reliable_of_mem_fusion member).sound) serves fusion
  dsimp only at goesOn
  split at goesOn
  · cases goesOn
    exact fusedServes
  · rcases bind_eq_ok_iff.mp goesOn with ⟨_, -, same⟩
    cases same
    exact fusedServes

theorem runPasses_serves (serves : progress.graph.Serves original) {settled : Bool}
    (result : runPasses config progress = .ok (after, settled)) : after.graph.Serves original := by
  rcases bind_eq_ok_iff.mp result with ⟨⟨simplified, _⟩, simplifying, goesOn⟩
  dsimp only at goesOn
  rcases ite_bind_eq_ok goesOn with ⟨⟨promoted, _⟩, promoting, goesOn⟩
  dsimp only at goesOn
  rcases ite_bind_eq_ok goesOn with ⟨fused, fusing, same⟩
  cases same
  have simplifiedServes : simplified.graph.Serves original := simplify_serves serves simplifying
  have promotedServes : promoted.graph.Serves original := by
    split at promoting
    · exact runValues_serves simplifiedServes promoting
    · cases promoting
      exact simplifiedServes
  split at fusing
  · exact runBlocks_serves promotedServes fusing
  · cases fusing
    exact promotedServes

/-- The optimizer checks the graph, runs the passes and finds the depth. -/
theorem optimize_eq_ok_iff {optimizer next : Optimizer} {graph optimized : Graph}
    {report : Report} :
    optimizer.optimize graph = .ok (next, optimized, report) ↔
      check optimizer.config graph = .ok () ∧ ∃ total settled size,
        runPasses optimizer.config ⟨graph, optimizer.stats⟩ = .ok (⟨optimized, total⟩, settled) ∧
          optimized.stackSize = .ok size ∧ next = ⟨optimizer.config, total⟩ ∧
            report = ⟨total, size, settled⟩ := by
  unfold optimize
  constructor
  · intro result
    rcases bind_eq_ok_iff.mp result with ⟨_, checked, goesOn⟩
    rcases bind_eq_ok_iff.mp goesOn with ⟨⟨⟨final, total⟩, settled⟩, passed, goesOn⟩
    rcases bind_eq_ok_iff.mp goesOn with ⟨size, sized, same⟩
    cases same
    exact ⟨checked, total, settled, size, passed, sized, rfl, rfl⟩
  · rintro ⟨checked, total, settled, size, passed, sized, rfl, rfl⟩
    exact bind_eq_ok_iff.mpr ⟨_, checked, bind_eq_ok_iff.mpr ⟨_, passed,
      bind_eq_ok_iff.mpr ⟨size, sized, rfl⟩⟩⟩

/-- Whatever the settings, a result of the optimizer is a valid graph that behaves like the
original: for every input it shows the same beginnings of runs and the same complete runs. -/
theorem optimize_keeps_behaviour {optimizer next : Optimizer} {graph optimized : Graph}
    {report : Report} (valid : graph.validate = .ok ()) (declared : graph.Declared)
    (result : optimizer.optimize graph = .ok (next, optimized, report)) :
    optimized.validate = .ok () ∧ graph.BehavesLike optimized := by
  have begins : graph.Serves graph :=
    .inl ⟨Graph.wellFormed_of_validate valid declared, .refl graph⟩
  rcases optimize_eq_ok_iff.mp result with ⟨-, total, settled, size, passed, sized, -, -⟩
  -- A graph that has lost its root has no depth, so the result is of the first kind.
  rcases runPasses_serves begins passed with ⟨wellFormed, behaves⟩ | lost
  · exact ⟨wellFormed.validate, behaves⟩
  · exact absurd sized lost.stackSize_ne_ok

theorem optimize_keeps_behaviour_printingLoop :
    ∃ next optimized report,
      Graph.printingLoop.validate = .ok () ∧ Graph.printingLoop.Declared ∧
        (ofConfig .default).optimize Graph.printingLoop = .ok (next, optimized, report) ∧
        optimized.validate = .ok () ∧ Graph.printingLoop.BehavesLike optimized := by
  have valid : Graph.printingLoop.validate = .ok () := by decide +kernel
  have declared : Graph.printingLoop.Declared := by
    unfold Graph.Declared
    decide +kernel
  have sizes : (runPasses .default ⟨Graph.printingLoop, {}⟩).toOption.bind
      (fun passed => passed.1.graph.stackSizeWithin? 20) = some (.ok (.bounded 0)) := by
    decide +kernel
  cases passed : runPasses .default ⟨Graph.printingLoop, {}⟩ with
  | error error => simp [passed, Except.toOption] at sizes
  | ok outcome =>
      rcases outcome with ⟨⟨optimized, total⟩, settled⟩
      have sized : optimized.stackSize = .ok (.bounded 0) :=
        Graph.stackSize_of_within? 20 (by simpa [passed, Except.toOption] using sizes)
      have result : (ofConfig .default).optimize Graph.printingLoop =
          .ok (⟨.default, total⟩, optimized, ⟨total, .bounded 0, settled⟩) :=
        optimize_eq_ok_iff.mpr ⟨valid, total, settled, _, passed, sized, rfl, rfl⟩
      exact ⟨_, _, _, valid, declared, result, optimize_keeps_behaviour valid declared result⟩

end Optimizer

end StackFlow
