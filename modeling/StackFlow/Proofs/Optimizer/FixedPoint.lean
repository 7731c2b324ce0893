import Mathlib
import StackFlow.Proofs.Termination.Rounds

/-!
# Convergence is a fixed point

Simplification has converged when a round reports no change. A pass that reports
none has left the graph as it was, and what a pass does depends on the graph alone
and not on the statistics. So every pass of the last round saw the same graph, the
one that the round ends with, and finds nothing to do in it again: another run ends
after one round. The first run has found a depth, so the root is not lost.
-/

namespace StackFlow

namespace Optimizer

variable {config : Config} {graph : Graph} {stats : Stats} {progress after : Progress}

/-- The statistics with one more round. -/
def Stats.nextRound (stats : Stats) : Stats :=
  { stats with iterations := stats.iterations + 1 }

/-- The pass finds nothing to do in the graph, whatever was done before. -/
def Idle (pass : Progress → Except GraphError (Progress × Bool)) (graph : Graph) : Prop :=
  ∀ stats, pass ⟨graph, stats⟩ = .ok (⟨graph, stats⟩, false)

/-- A round finds nothing to do in the graph. -/
def Resting (config : Config) (graph : Graph) : Prop :=
  ∀ stats, round config ⟨graph, stats⟩ = .ok (⟨graph, stats.nextRound⟩, false)

section Passes

theorem eq_of_descends {other : Graph} (descends : graph.Descends other false) : other = graph := by
  rcases descends.lower with ⟨-, same⟩ | ⟨reported, -⟩
  · exact same
  · cases reported

theorem idle_runPeephole {rules : List Rule} (reliable : ∀ rule ∈ rules, rule.Reliable)
    (intact : graph.Intact)
    (result : runPeephole config rules ⟨graph, stats⟩ = .ok (after, false)) :
    Idle (runPeephole config rules) graph := by
  induction rules with
  | nil => exact fun stats => rfl
  | cons rule rules rest =>
      rcases bind_eq_ok_iff.mp result with ⟨⟨scanned, applied⟩, scanning, goesOn⟩
      have descends := intact.apply (reliable rule (List.mem_cons_self ..)) scanning
      dsimp only at goesOn
      split at goesOn
      · rename_i none
        subst none
        -- The rule has left the graph alone, so the rules behind it see the same one.
        obtain rfl : scanned = graph := eq_of_descends (by simpa using descends)
        have others := rest (fun _ member => reliable _ (List.mem_cons_of_mem _ member)) goesOn
        exact fun stats => bind_eq_ok_iff.mpr ⟨_, scanning, others stats⟩
      · rcases bind_eq_ok_iff.mp goesOn with ⟨_, -, goesOn⟩
        rcases bind_eq_ok_iff.mp goesOn with ⟨_, -, same⟩
        cases same

theorem idle_runBranches (intact : graph.Intact)
    (result : runBranches config ⟨graph, stats⟩ = .ok (after, false)) :
    Idle (runBranches config) graph := by
  rcases bind_eq_ok_iff.mp result with ⟨⟨folded, count⟩, folding, goesOn⟩
  have descends := intact.foldBranches folding
  dsimp only at goesOn
  split at goesOn
  · rename_i none
    subst none
    obtain rfl : folded = graph := eq_of_descends (by simpa using descends)
    exact fun stats => bind_eq_ok_iff.mpr ⟨_, folding, rfl⟩
  · rcases bind_eq_ok_iff.mp goesOn with ⟨_, -, same⟩
    cases same

theorem idle_runCells (result : runCells config ⟨graph, stats⟩ = .ok (after, false)) :
    Idle (runCells config) graph := by
  dsimp only [runCells] at result
  split at result
  · rename_i none
    intro stats
    simp [runCells, none]
  · rcases bind_eq_ok_iff.mp result with ⟨_, -, same⟩
    cases same

variable {pass : Progress → Except GraphError (Progress × Bool)} {changed : Bool}

theorem idle_optionally {enabled : Bool}
    (idle : pass ⟨graph, stats⟩ = .ok (after, false) → Idle pass graph)
    (result : optionally enabled pass ⟨graph, stats⟩ = .ok (after, false)) :
    Idle (optionally enabled pass) graph := by
  cases enabled with
  | false => exact fun stats => rfl
  | true => exact idle result

theorem Idle.eq (idle : Idle pass graph) (result : pass ⟨graph, stats⟩ = .ok (after, changed)) :
    after = ⟨graph, stats⟩ := by
  rw [idle stats] at result
  cases result
  rfl

end Passes

section Rounds

/-- The passes of a round that reports no change all see the same graph, and are idle on it. -/
theorem resting_of_unchanged (intact : graph.Intact)
    (result : round config ⟨graph, stats⟩ = .ok (after, false)) :
    after.graph = graph ∧ Resting config graph := by
  rcases bind_eq_ok_iff.mp result with ⟨⟨first, replaced⟩, peephole, goesOn⟩
  rcases bind_eq_ok_iff.mp goesOn with ⟨⟨second, folded⟩, branches, goesOn⟩
  rcases bind_eq_ok_iff.mp goesOn with ⟨⟨third, promoted⟩, cells, same⟩
  have parts : third = after ∧ replaced = false ∧ folded = false ∧ promoted = false := by
    simpa [and_assoc] using Prod.mk.inj (Except.ok.inj same)
  rcases parts with ⟨rfl, rfl, rfl, rfl⟩
  have rules := idle_optionally
    (idle_runPeephole (fun _ member => Rule.reliable_of_mem_peephole member) intact) peephole
  obtain rfl := rules.eq peephole
  have folds := idle_optionally (idle_runBranches intact) branches
  obtain rfl := folds.eq branches
  have moves := idle_optionally idle_runCells cells
  obtain rfl := moves.eq cells
  refine ⟨rfl, fun stats => ?_⟩
  exact bind_eq_ok_iff.mpr
    ⟨_, rules _, bind_eq_ok_iff.mpr ⟨_, folds _, bind_eq_ok_iff.mpr ⟨_, moves _, rfl⟩⟩⟩

/-- Rounds that converge end in a graph on which a round rests. -/
theorem resting_of_converged {rounds : Nat} (intact : progress.graph.Intact)
    (result : simplify config rounds progress = .ok (after, true)) :
    0 < rounds ∧ after.graph.Intact ∧ Resting config after.graph := by
  induction rounds generalizing progress with
  | zero => cases result
  | succ rounds rest =>
      refine ⟨Nat.succ_pos rounds, ?_⟩
      rcases bind_eq_ok_iff.mp result with ⟨⟨next, changed⟩, one, goesOn⟩
      have descends := round_descends intact one
      cases changed with
      | true => exact (rest descends.intact goesOn).2
      | false =>
          cases goesOn
          rcases resting_of_unchanged intact one with ⟨same, resting⟩
          rw [same]
          exact ⟨intact, resting⟩

theorem simplify_of_resting (resting : Resting config graph) {rounds : Nat} (positive : 0 < rounds)
    (stats : Stats) :
    simplify config rounds ⟨graph, stats⟩ = .ok (⟨graph, stats.nextRound⟩, true) := by
  rcases Nat.exists_eq_add_of_le' positive with ⟨further, rfl⟩
  exact bind_eq_ok_iff.mpr ⟨_, resting stats, rfl⟩

end Rounds

/-- Without promotion of values and fusion, all passes are rounds of simplification. -/
theorem runPasses_eq_simplify (noValues : config.promoteValues = false)
    (noFusion : config.fuseBlocks = false) :
    runPasses config progress = simplify config config.maxIterations progress := by
  simp only [runPasses, noValues, noFusion, Bool.false_eq_true, if_false]
  cases simplify config config.maxIterations progress with
  | error error => rfl
  | ok outcome => simp [bind, Except.bind, pure, Except.pure]

/-- A run that has converged ends in a fixed point, if values are not promoted and nothing is fused.
Run again, the optimizer leaves the graph exactly as it is and finds the same depth, and it needs
one round to see that nothing is left to do. The same is true of any other optimizer with these
settings. -/
theorem optimize_fixed_point {optimizer next : Optimizer} {optimized : Graph} {report : Report}
    (noValues : optimizer.config.promoteValues = false)
    (noFusion : optimizer.config.fuseBlocks = false) (valid : graph.validate = .ok ())
    (result : optimizer.optimize graph = .ok (next, optimized, report))
    (converged : report.converged = true) :
    next.optimize optimized =
        .ok ({ next with stats := next.stats.nextRound }, optimized,
          { report with stats := report.stats.nextRound }) ∧
      ∀ stats, optimize ⟨optimizer.config, stats⟩ optimized =
        .ok (⟨optimizer.config, stats.nextRound⟩, optimized,
          ⟨stats.nextRound, report.stackSize, true⟩) := by
  rcases optimizer with ⟨config, stats⟩
  rcases optimize_eq_ok_iff.mp result with ⟨-, total, settled, size, simplified, sized, rfl, rfl⟩
  obtain rfl : settled = true := converged
  rw [runPasses_eq_simplify noValues noFusion] at simplified
  have intact : graph.Intact := .inl (Graph.validate_eq_ok_iff.mp valid)
  rcases resting_of_converged intact simplified with ⟨positive, optimizedIntact, resting⟩
  -- A graph that has lost its root has no depth.
  have optimizedValid : optimized.validate = .ok () :=
    Graph.validate_eq_ok_iff.mpr
      (optimizedIntact.resolve_right fun lost => lost.stackSize_ne_ok sized)
  have checked : check config optimized = .ok () := by
    unfold check
    split
    · exact optimizedValid
    · rfl
  have again (stats : Stats) : optimize ⟨config, stats⟩ optimized =
      .ok (⟨config, stats.nextRound⟩, optimized, ⟨stats.nextRound, size, true⟩) := by
    refine optimize_eq_ok_iff.mpr ⟨checked, _, _, _, ?_, sized, rfl, rfl⟩
    rw [runPasses_eq_simplify noValues noFusion]
    exact simplify_of_resting resting positive stats
  exact ⟨again total, again⟩

/-- Only the rounds of simplification run. -/
def Config.roundsOnly : Config where
  promoteValues := false
  fuseBlocks := false

/-- Every pass finds something here. Two ways lead to the sum, and its operands are constant on one
of them only. The other is cut off when the first decision is folded, so the rules find the sum in
the second round. -/
def foldingSum : Graph where
  slots := #[
    some { kind := .exprDecision (.const 0), children := [⟨1⟩, ⟨2⟩] },
    some { kind := .single (.output .number), children := [⟨3⟩], parents := [⟨0⟩] },
    some { kind := .single (.push (.const 2)), children := [⟨3⟩], parents := [⟨0⟩, ⟨6⟩] },
    some { kind := .single (.push (.const 3)), children := [⟨4⟩], parents := [⟨1⟩, ⟨2⟩] },
    some { kind := .single (.math .add), children := [⟨5⟩], parents := [⟨3⟩] },
    some { kind := .single (.output .number), children := [⟨6⟩], parents := [⟨4⟩] },
    some { kind := .exprDecision (.memory (.const 1) (.const 0)), children := [⟨2⟩, ⟨7⟩],
           parents := [⟨5⟩] },
    some { kind := .single .nop, parents := [⟨6⟩] }]
  root := some ⟨0⟩
  grid := .blank 2 1
  vars := #[]

theorem optimize_fixed_point_foldingSum :
    ∃ next optimized report,
      foldingSum.validate = .ok () ∧
        (ofConfig .roundsOnly).optimize foldingSum = .ok (next, optimized, report) ∧
        (report.converged = true ∧ report.stats.iterations = 3 ∧ report.stats.total = 6) ∧
        next.optimize optimized =
          .ok ({ next with stats := next.stats.nextRound }, optimized,
            { report with stats := report.stats.nextRound }) ∧
        ∀ stats, optimize ⟨.roundsOnly, stats⟩ optimized =
          .ok (⟨.roundsOnly, stats.nextRound⟩, optimized,
            ⟨stats.nextRound, report.stackSize, true⟩) := by
  have valid : foldingSum.validate = .ok () := by decide +kernel
  have reported : (runPasses .roundsOnly ⟨foldingSum, {}⟩).toOption.map (fun passed =>
      (passed.1.graph.stackSizeWithin? 20, passed.2, passed.1.stats.iterations,
        passed.1.stats.total)) = some (some (.ok (.bounded 0)), true, 3, 6) := by
    decide +kernel
  cases passed : runPasses .roundsOnly ⟨foldingSum, {}⟩ with
  | error error => simp [passed, Except.toOption] at reported
  | ok outcome =>
      rcases outcome with ⟨⟨optimized, total⟩, settled⟩
      simp only [passed, Except.toOption, Option.map_some, Option.some.injEq,
        Prod.mk.injEq] at reported
      rcases reported with ⟨within, rfl, counts⟩
      have sized := Graph.stackSize_of_within? 20 within
      have result : (ofConfig .roundsOnly).optimize foldingSum =
          .ok (⟨.roundsOnly, total⟩, optimized, ⟨total, .bounded 0, true⟩) :=
        optimize_eq_ok_iff.mpr ⟨valid, total, true, _, passed, sized, rfl, rfl⟩
      exact ⟨_, _, _, valid, result, ⟨rfl, counts⟩, optimize_fixed_point rfl rfl valid result rfl⟩

end Optimizer

end StackFlow
