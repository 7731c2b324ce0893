import Mathlib
import StackFlow.Proofs.Optimizer
import StackFlow.Proofs.Promotion.Soundness
import StackFlow.Proofs.Termination.Branches
import StackFlow.Proofs.Termination.Cells
import StackFlow.Proofs.Termination.Splicing

/-!
# Simplification comes to an end

Each pass of a round leaves the graph as it is or lowers its rank, so a round that
reports a change has lowered the rank. Ranks are well ordered. There are therefore
only so many rounds before one of them changes nothing or fails, whatever passes are
enabled. A graph that has lost its root takes part in this as well: nothing can be
replaced or folded in it, and its cells can move once.
-/

namespace StackFlow

namespace Graph

variable {graph other third : Graph} {changed again : Bool}

/-- The graph is valid, or its root is lost. -/
def Intact (graph : Graph) : Prop :=
  graph.Valid ∨ graph.RootLost

/-- What a pass leads to: the graph stays intact, and its rank is lowered if a change is reported.
Otherwise the graph is the same. -/
structure Descends (graph other : Graph) (changed : Bool) : Prop where
  intact : other.Intact
  lower : (changed = false ∧ other = graph) ∨ (changed = true ∧ other.rank < graph.rank)

theorem Descends.trans (first : graph.Descends other changed)
    (second : other.Descends third again) : graph.Descends third (changed || again) := by
  refine ⟨second.intact, ?_⟩
  rcases first.lower with ⟨unchanged, rfl⟩ | ⟨reported, lower⟩
  · rw [unchanged, Bool.false_or]
    exact second.lower
  · refine .inr ⟨by simp [reported], ?_⟩
    rcases second.lower with ⟨-, rfl⟩ | ⟨-, further⟩
    · exact lower
    · exact further.trans lower

theorem Intact.descends (intact : graph.Intact) : graph.Descends graph false :=
  ⟨intact, .inl ⟨rfl, rfl⟩⟩

theorem Intact.apply {rule : Rule} {applied : ℕ} (intact : graph.Intact) (reliable : rule.Reliable)
    (result : rule.apply graph = .ok (other, applied)) : graph.Descends other (applied ≠ 0) := by
  rcases intact with valid | lost
  · refine ⟨?_, ?_⟩
    · rcases Rule.apply_eq_ok_iff.mp result with ⟨-, rfl, -⟩
      exact .inl (rule.scan_valid valid).1
    · simpa using Rule.apply_rank reliable valid result
  · rw [lost.apply_eq rule] at result
    cases result
    exact Intact.descends (.inr lost)

theorem Intact.foldBranches {count : ℕ} (intact : graph.Intact)
    (result : graph.foldBranches = .ok (other, count)) : graph.Descends other (count ≠ 0) := by
  rcases intact with valid | lost
  · refine ⟨foldBranches_valid_or_lost valid result, ?_⟩
    simpa using foldBranches_rank valid result
  · rw [lost.foldBranches_eq] at result
    cases result
    exact Intact.descends (.inr lost)

theorem Intact.promoteCells (intact : graph.Intact) (moved : graph.promoteCells.2 ≠ 0) :
    graph.Descends graph.promoteCells.1 true := by
  refine ⟨?_, .inr ⟨rfl, graph.promoteCells_rank.resolve_left moved⟩⟩
  rcases intact with valid | lost
  · left
    rcases valid_iff.mp valid with ⟨consistent, rooted⟩
    rcases graph.promoteCells_eq with same | ⟨-, promoted⟩
    · rwa [same]
    · have rekinded := graph.withCells_rekinded
      rw [promoted, valid_iff]
      exact ⟨rekinded.consistent consistent, rekinded.rooted rooted⟩
  · exact .inr lost.promoteCells

end Graph

namespace Optimizer

variable {config : Config} {progress after : Progress} {changed : Bool}

theorem runPeephole_descends {rules : List Rule} (reliable : ∀ rule ∈ rules, rule.Reliable)
    (intact : progress.graph.Intact)
    (result : runPeephole config rules progress = .ok (after, changed)) :
    progress.graph.Descends after.graph changed := by
  induction rules generalizing progress changed with
  | nil =>
      cases result
      exact intact.descends
  | cons rule rules rest =>
      have others : ∀ other ∈ rules, other.Reliable :=
        fun _ member => reliable _ (List.mem_cons_of_mem _ member)
      rcases bind_eq_ok_iff.mp result with ⟨⟨graph, applied⟩, scanned, goesOn⟩
      have first := intact.apply (reliable rule (List.mem_cons_self ..)) scanned
      dsimp only at goesOn
      split at goesOn
      · rename_i none
        have second := rest others first.intact goesOn
        simpa [none] using first.trans second
      · rename_i some
        rcases bind_eq_ok_iff.mp goesOn with ⟨_, -, goesOn⟩
        rcases bind_eq_ok_iff.mp goesOn with ⟨⟨final, again⟩, ends, same⟩
        cases same
        have second := rest others first.intact ends
        simpa [some] using first.trans second

theorem runBranches_descends (intact : progress.graph.Intact)
    (result : runBranches config progress = .ok (after, changed)) :
    progress.graph.Descends after.graph changed := by
  rcases bind_eq_ok_iff.mp result with ⟨⟨graph, folded⟩, folding, goesOn⟩
  have descends := intact.foldBranches folding
  dsimp only at goesOn
  split at goesOn
  · rename_i none
    cases goesOn
    simpa [none] using descends
  · rename_i some
    rcases bind_eq_ok_iff.mp goesOn with ⟨_, -, same⟩
    cases same
    simpa [some] using descends

theorem runCells_descends (intact : progress.graph.Intact)
    (result : runCells config progress = .ok (after, changed)) :
    progress.graph.Descends after.graph changed := by
  dsimp only [runCells] at result
  split at result
  · cases result
    exact intact.descends
  · rename_i some
    rcases bind_eq_ok_iff.mp result with ⟨_, -, same⟩
    cases same
    exact intact.promoteCells some

theorem optionally_descends {enabled : Bool} {pass : Progress → Except GraphError (Progress × Bool)}
    (result : optionally enabled pass progress = .ok (after, changed))
    (intact : progress.graph.Intact)
    (passDescends : pass progress = .ok (after, changed) →
      progress.graph.Descends after.graph changed) :
    progress.graph.Descends after.graph changed := by
  unfold optionally at result
  split at result
  · exact passDescends result
  · cases result
    exact intact.descends

theorem round_descends (intact : progress.graph.Intact)
    (result : round config progress = .ok (after, changed)) :
    progress.graph.Descends after.graph changed := by
  rcases bind_eq_ok_iff.mp result with ⟨⟨first, replaced⟩, peephole, goesOn⟩
  rcases bind_eq_ok_iff.mp goesOn with ⟨⟨second, folded⟩, branches, goesOn⟩
  rcases bind_eq_ok_iff.mp goesOn with ⟨⟨third, promoted⟩, cells, same⟩
  cases same
  have rules := optionally_descends peephole intact
    (runPeephole_descends (fun _ member => Rule.reliable_of_mem_peephole member) intact)
  have folds := optionally_descends branches rules.intact (runBranches_descends rules.intact)
  have moves := optionally_descends cells folds.intact (runCells_descends folds.intact)
  exact (rules.trans folds).trans moves

/-- With so many rounds the loop fails, or it ends by a round that reports no change and leaves the
graph as it is. -/
def Settles (config : Config) (rounds : ℕ) (progress : Progress) : Prop :=
  (∃ error, simplify config rounds progress = .error error) ∨
    ∃ last final, simplify config rounds progress = .ok (final, true) ∧
      round config last = .ok (final, false) ∧ final.graph = last.graph

theorem settles_of_error {error : GraphError} (result : round config progress = .error error)
    (rounds : ℕ) : Settles config (rounds + 1) progress :=
  .inl ⟨error, by simp [simplify, result, bind, Except.bind]⟩

theorem settles_of_unchanged (result : round config progress = .ok (after, false))
    (same : after.graph = progress.graph) (rounds : ℕ) : Settles config (rounds + 1) progress :=
  .inr ⟨progress, after, by simp [simplify, result, bind, Except.bind, pure, Except.pure],
    result, same⟩

theorem settles_of_changed (result : round config progress = .ok (after, true)) {rounds : ℕ}
    (settles : Settles config rounds after) : Settles config (rounds + 1) progress := by
  have goesOn : simplify config (rounds + 1) progress = simplify config rounds after := by
    simp [simplify, result, bind, Except.bind]
  rwa [Settles, goesOn]

/-- The number of rounds is bounded, as each of them but the last lowers the rank. -/
theorem exists_bound (config : Config) (progress : Progress) (intact : progress.graph.Intact) :
    ∃ bound, ∀ rounds ≥ bound, Settles config rounds progress := by
  induction ranked : progress.graph.rank using WellFoundedLT.induction generalizing progress with
  | ind rank rest =>
      cases result : round config progress with
      | error error =>
          refine ⟨1, fun rounds enough => ?_⟩
          rcases Nat.exists_eq_add_of_le' enough with ⟨further, rfl⟩
          exact settles_of_error result further
      | ok outcome =>
          rcases outcome with ⟨after, changed⟩
          have descends := round_descends intact result
          rcases descends.lower with ⟨rfl, same⟩ | ⟨rfl, lower⟩
          · refine ⟨1, fun rounds enough => ?_⟩
            rcases Nat.exists_eq_add_of_le' enough with ⟨further, rfl⟩
            exact settles_of_unchanged result same further
          · rcases rest _ (ranked ▸ lower) after descends.intact rfl with ⟨bound, settles⟩
            refine ⟨bound + 1, fun rounds enough => ?_⟩
            rcases Nat.exists_eq_add_of_le' enough with ⟨further, rfl⟩
            exact settles_of_changed result (settles (further + bound) (Nat.le_add_left ..))

/-!
A round reads which passes are enabled and whether graphs are to be checked. It does not read how
many rounds there may be, so one bound serves all configurations that differ in this alone.
-/

theorem runPeephole_maxIterations (config : Config) (limit : ℕ) (rules : List Rule)
    (progress : Progress) :
    runPeephole { config with maxIterations := limit } rules progress =
      runPeephole config rules progress := by
  induction rules generalizing progress with
  | nil => rfl
  | cons rule rules rest =>
      simp only [runPeephole, rest]
      rfl

theorem round_maxIterations (config : Config) (limit : ℕ) (progress : Progress) :
    round { config with maxIterations := limit } progress = round config progress := by
  have rules : runPeephole { config with maxIterations := limit } Rule.peephole =
      runPeephole config Rule.peephole :=
    funext (runPeephole_maxIterations config limit Rule.peephole)
  unfold round
  rw [rules]
  rfl

theorem simplify_maxIterations (config : Config) (limit rounds : ℕ) (progress : Progress) :
    simplify { config with maxIterations := limit } rounds progress =
      simplify config rounds progress := by
  induction rounds generalizing progress with
  | zero => rfl
  | succ rounds rest => simp only [simplify, round_maxIterations, rest]

/-- The rounds cannot change a valid graph for ever. Whatever passes are enabled, all limits from
some bound on let the loop fail or come to a round without a change. -/
theorem simplify_converges (config : Config) (stats : Stats) {graph : Graph}
    (valid : graph.validate = .ok ()) :
    ∃ bound, ∀ limit ≥ bound,
      Settles { config with maxIterations := limit } limit ⟨graph, stats⟩ := by
  have intact : graph.Intact := .inl (Graph.validate_eq_ok_iff.mp valid)
  rcases exists_bound config ⟨graph, stats⟩ intact with ⟨bound, settles⟩
  refine ⟨bound, fun limit enough => ?_⟩
  simpa only [Settles, round_maxIterations, simplify_maxIterations] using settles limit enough

theorem simplify_converges_printingLoop :
    Graph.printingLoop.validate = .ok () ∧
      ∃ bound, ∀ limit ≥ bound,
        Settles { Config.default with maxIterations := limit } limit ⟨Graph.printingLoop, {}⟩ := by
  have valid : Graph.printingLoop.validate = .ok () := by decide +kernel
  exact ⟨valid, simplify_converges .default {} valid⟩

end Optimizer

end StackFlow
