import Mathlib
import StackFlow.Graph.Analysis
import StackFlow.Graph.Validity
import StackFlow.Proofs.Behaviour.Records

/-!
# What a program does not touch

A program whose effects do not include the stack runs in the same way whatever the
stack holds, and leaves it as it found it. The same goes for the grid, the variables
and the input. All of this comes from one equation for each op: running it after a
part of the state was exchanged is the same as exchanging the part after running it,
as long as the op does not touch the part. The equation carries over to vertices and
to whole runs.

What a program shows and whether it draws edges at random is told by its effects in
the same way.
-/

namespace StackFlow

/-- One of the effects that something may have. -/
inductive Effect where
  | stack
  | grid
  | vars
  | output
  | input
  | random

namespace Effects

/-- The effect is one of these. -/
def has (effects : Effects) : Effect → Bool
  | .stack => effects.stack
  | .grid => effects.grid
  | .vars => effects.vars
  | .output => effects.output
  | .input => effects.input
  | .random => effects.random

variable {effects : Effects} {effect other : Effect}

@[simp]
theorem has_union (first second : Effects) :
    (first ∪ second).has effect = (first.has effect || second.has effect) := by
  cases effect <;> rfl

@[simp]
theorem has_unionAll (list : List Effects) :
    (unionAll list).has effect = list.any (·.has effect) := by
  have folded (start : Effects) :
      (list.foldl union start).has effect = (start.has effect || list.any (·.has effect)) := by
    induction list generalizing start with
    | nil => simp
    | cons first rest ih =>
        rw [List.foldl_cons, ih, List.any_cons, ← Bool.or_assoc]
        exact congrArg (· || _) (has_union start first)
  have nothing : none.has effect = false := by cases effect <;> rfl
  simp [unionAll, folded, nothing]

theorem ne_of_has (absent : effects.has effect = false) (present : effects.has other = true) :
    effect ≠ other := by
  rintro rfl
  simp [absent] at present

end Effects

namespace State

/-- The state with the part that the effect is about taken from another state. Output and random
choices are no part of a state. -/
def graft (state : State) (effect : Effect) (donor : State) : State :=
  match effect with
  | .stack => { state with stack := donor.stack }
  | .grid => { state with grid := donor.grid }
  | .vars => { state with vars := donor.vars }
  | .input => { state with input := donor.input }
  | .output | .random => state

variable {state donor : State} {effect : Effect}

@[simp]
theorem graft_self (state : State) (effect : Effect) : state.graft effect state = state := by
  cases effect <;> rfl

theorem graft_graft (state donor other : State) (effect : Effect) :
    state.graft effect (donor.graft effect other) = state.graft effect other := by
  cases effect <;> rfl

theorem operand_graft (apart : effect ≠ .stack) (place : Nat) :
    (state.graft effect donor).operand place = state.operand place := by
  cases effect <;> trivial

theorem vars_graft (apart : effect ≠ .vars) : (state.graft effect donor).vars = state.vars := by
  cases effect <;> trivial

theorem grid_graft (apart : effect ≠ .grid) : (state.graft effect donor).grid = state.grid := by
  cases effect <;> trivial

theorem input_graft (apart : effect ≠ .input) : (state.graft effect donor).input = state.input := by
  cases effect <;> trivial

theorem replace_graft (apart : effect ≠ .stack) (pops : Nat) (pushes : List Word) :
    (state.graft effect donor).replace pops pushes =
      (state.replace pops pushes).graft effect donor := by
  cases effect <;> trivial

theorem assign_graft (apart : effect ≠ .vars) (var : VarId) (value : Word) :
    (state.graft effect donor).assign var value = (state.assign var value).graft effect donor := by
  cases effect <;> trivial

theorem store_graft (apart : effect ≠ .grid) (x y value : Word) :
    (state.graft effect donor).store x y value = (state.store x y value).graft effect donor := by
  cases effect <;> trivial

theorem skipInput_graft (apart : effect ≠ .input) :
    (state.graft effect donor).skipInput = state.skipInput.graft effect donor := by
  cases effect <;> trivial

end State

/-- An expression has the same value if only what it does not read is changed. -/
theorem Expr.eval_graft {expr : Expr} {effect : Effect} (clear : expr.effects.has effect = false)
    (state donor : State) : expr.eval (state.graft effect donor).env = expr.eval state.env := by
  induction expr with
  | const value => rfl
  | var id =>
      have apart : effect ≠ .vars := Effects.ne_of_has clear rfl
      simp only [eval, State.env, State.vars_graft apart]
  | peek =>
      have apart : effect ≠ .stack := Effects.ne_of_has clear rfl
      simp only [eval, State.env, State.operand_graft apart]
  | not operand ih | boolCast operand ih =>
      simp only [eval, ih clear]
  | binary op lhs rhs left right =>
      simp only [effects, Effects.has_union, Bool.or_eq_false_iff] at clear
      simp only [eval, left clear.1, right clear.2]
  | memory x y column row =>
      simp only [effects, Effects.has_union, Bool.or_eq_false_iff] at clear
      rcases clear with ⟨⟨own, xClear⟩, yClear⟩
      have apart : effect ≠ .grid := Effects.ne_of_has own rfl
      simp only [eval, column xClear, row yClear]
      simp only [State.env, State.grid_graft apart]

/-- The effect that an event is a sign of. -/
def Event.effect : Event → Effect
  | .output _ _ => .output
  | .input _ _ => .input

namespace Op

variable {op : Op} {effect : Effect}

theorem has_eq_false_iff :
    op.effects.has effect = false ↔
      op.ownEffects.has effect = false ∧
        ∀ expr ∈ op.expressions, expr.effects.has effect = false := by
  simp [effects]

/-- An op does the same if only what it does not touch is changed, and leaves that as it is. -/
theorem run_graft (clear : op.effects.has effect = false) (state donor : State) :
    op.run (state.graft effect donor) = (op.run state).graft effect donor := by
  rcases has_eq_false_iff.mp clear with ⟨own, clearValues⟩
  have values : ∀ expr ∈ op.expressions,
      expr.eval (state.graft effect donor).env = expr.eval state.env :=
    fun expr listed => Expr.eval_graft (clearValues expr listed) state donor
  cases op with
  | nop | print value format | printText text => rfl
  | pop | dup | swap | math operator | not | output format =>
      have noStack : effect ≠ .stack := Effects.ne_of_has own rfl
      simp only [run, State.operand_graft noStack, State.replace_graft noStack]
  | push value =>
      have noStack : effect ≠ .stack := Effects.ne_of_has own rfl
      simp only [run, values value (List.mem_singleton_self value), State.replace_graft noStack]
  | get =>
      have noStack : effect ≠ .stack := Effects.ne_of_has own rfl
      have noGrid : effect ≠ .grid := Effects.ne_of_has own rfl
      simp only [run, State.operand_graft noStack, State.grid_graft noGrid,
        State.replace_graft noStack]
  | set =>
      have noStack : effect ≠ .stack := Effects.ne_of_has own rfl
      have noGrid : effect ≠ .grid := Effects.ne_of_has own rfl
      simp only [run, State.operand_graft noStack, State.store_graft noGrid,
        State.replace_graft noStack]
  | load x y =>
      have noStack : effect ≠ .stack := Effects.ne_of_has own rfl
      have noGrid : effect ≠ .grid := Effects.ne_of_has own rfl
      simp only [run, values x (by simp [expressions]), values y (by simp [expressions]),
        State.grid_graft noGrid, State.replace_graft noStack]
  | store x y value =>
      have noGrid : effect ≠ .grid := Effects.ne_of_has own rfl
      simp only [run, values x (by simp [expressions]), values y (by simp [expressions]),
        values value (by simp [expressions]), State.store_graft noGrid]
  | varGet var =>
      have noStack : effect ≠ .stack := Effects.ne_of_has own rfl
      have noVars : effect ≠ .vars := Effects.ne_of_has own rfl
      simp only [run, State.vars_graft noVars, State.replace_graft noStack]
  | varSet var =>
      have noStack : effect ≠ .stack := Effects.ne_of_has own rfl
      have noVars : effect ≠ .vars := Effects.ne_of_has own rfl
      simp only [run, State.operand_graft noStack, State.assign_graft noVars,
        State.replace_graft noStack]
  | assign var value =>
      have noVars : effect ≠ .vars := Effects.ne_of_has own rfl
      simp only [run, values value (List.mem_singleton_self value), State.assign_graft noVars]
  | input format =>
      have noStack : effect ≠ .stack := Effects.ne_of_has own rfl
      have noInput : effect ≠ .input := Effects.ne_of_has own rfl
      simp only [run, State.input_graft noInput, State.skipInput_graft noInput,
        State.replace_graft noStack]
  | inputVar var format =>
      have noVars : effect ≠ .vars := Effects.ne_of_has own rfl
      have noInput : effect ≠ .input := Effects.ne_of_has own rfl
      simp only [run, State.input_graft noInput, State.skipInput_graft noInput,
        State.assign_graft noVars]

theorem events_graft (clear : op.effects.has effect = false) (state donor : State) :
    op.events (state.graft effect donor) = op.events state := by
  rcases has_eq_false_iff.mp clear with ⟨own, clearValues⟩
  cases op with
  | output format =>
      have noStack : effect ≠ .stack := Effects.ne_of_has own rfl
      simp only [events, State.operand_graft noStack]
  | print value format =>
      have clearValue := clearValues value (List.mem_singleton_self value)
      simp only [events, Expr.eval_graft clearValue]
  | input format | inputVar var format =>
      have noInput : effect ≠ .input := Effects.ne_of_has own rfl
      simp only [events, State.input_graft noInput]
  | _ => rfl

/-- Whatever can be seen of an op is one of its effects. -/
theorem has_of_mem_events {state : State} {event : Event} (seen : event ∈ op.events state) :
    op.effects.has event.effect = true := by
  have own : op.ownEffects.has event.effect = true := by
    cases op with
    | output format | print value format | input format | inputVar var format =>
        rw [List.mem_singleton.mp seen]
        rfl
    | printText text =>
        rcases List.mem_map.mp seen with ⟨char, -, rfl⟩
        rfl
    | _ => cases seen
  simp [effects, own]

end Op

section Ops

variable {ops : List Op} {effect : Effect}

theorem State.run_graft (clear : ∀ op ∈ ops, op.effects.has effect = false) (state donor : State) :
    (state.graft effect donor).run ops = (state.run ops).graft effect donor := by
  induction ops generalizing state with
  | nil => rfl
  | cons op ops ih =>
      rw [List.forall_mem_cons] at clear
      simp only [State.run, Op.run_graft clear.1]
      exact ih clear.2 _

theorem State.events_graft (clear : ∀ op ∈ ops, op.effects.has effect = false)
    (state donor : State) : (state.graft effect donor).events ops = state.events ops := by
  induction ops generalizing state with
  | nil => rfl
  | cons op ops ih =>
      rw [List.forall_mem_cons] at clear
      simp only [State.events, Op.events_graft clear.1, Op.run_graft clear.1, ih clear.2]

theorem State.exists_of_mem_events {state : State} {event : Event}
    (seen : event ∈ state.events ops) : ∃ op ∈ ops, op.effects.has event.effect = true := by
  induction ops generalizing state with
  | nil => cases seen
  | cons op ops ih =>
      rcases List.mem_append.mp seen with now | later
      · exact ⟨op, List.mem_cons_self, Op.has_of_mem_events now⟩
      · rcases ih later with ⟨other, listed, has⟩
        exact ⟨other, List.mem_cons_of_mem _ listed, has⟩

end Ops

namespace Exit

variable {exit : Exit} {effect : Effect}

theorem run_graft (clear : exit.effects.has effect = false) (state donor : State) :
    exit.run (state.graft effect donor) = (exit.run state).graft effect donor := by
  cases exit with
  | popped =>
      have noStack : effect ≠ .stack := Effects.ne_of_has clear rfl
      exact State.replace_graft noStack 1 []
  | next | tested test | random => rfl

theorem edge_graft (clear : exit.effects.has effect = false) (drawn : Nat) (state donor : State) :
    exit.edge drawn (state.graft effect donor) = exit.edge drawn state := by
  cases exit with
  | popped =>
      have noStack : effect ≠ .stack := Effects.ne_of_has clear rfl
      simp only [edge, State.operand_graft noStack]
  | tested test =>
      have sameTest : test.eval (state.graft effect donor).env = test.eval state.env :=
        Expr.eval_graft clear state donor
      simp only [edge, sameTest]
  | next | random => rfl

end Exit

namespace Kind

variable {kind : Kind} {effect : Effect}

theorem has_eq_false_iff :
    kind.effects.has effect = false ↔
      (∀ op ∈ kind.ops, op.effects.has effect = false) ∧ kind.exit.effects.has effect = false := by
  have parts : kind.effects = Effects.unionAll (kind.ops.map Op.effects) ∪ kind.exit.effects := rfl
  simp [parts]

theorem run_graft (clear : kind.effects.has effect = false) (state donor : State) :
    kind.run (state.graft effect donor) = (kind.run state).graft effect donor := by
  rcases has_eq_false_iff.mp clear with ⟨clearOps, clearExit⟩
  simp only [run, State.run_graft clearOps, Exit.run_graft clearExit]

theorem events_graft (clear : kind.effects.has effect = false) (state donor : State) :
    kind.events (state.graft effect donor) = kind.events state :=
  State.events_graft (has_eq_false_iff.mp clear).1 state donor

theorem edge_graft (clear : kind.effects.has effect = false) (drawn : Nat) (state donor : State) :
    kind.edge drawn (state.graft effect donor) = kind.edge drawn state := by
  rcases has_eq_false_iff.mp clear with ⟨clearOps, clearExit⟩
  simp only [edge, State.run_graft clearOps, Exit.edge_graft clearExit]

/-- A vertex that does not touch a part of the state leaves it as it is. -/
theorem graft_run (clear : kind.effects.has effect = false) (state : State) :
    (kind.run state).graft effect state = kind.run state := by
  rw [← run_graft clear, State.graft_self]

theorem not_mem_events (clear : kind.effects.has effect = false) {state : State} {event : Event}
    (seen : event ∈ kind.events state) : event.effect ≠ effect := by
  rintro rfl
  rcases State.exists_of_mem_events seen with ⟨op, listed, has⟩
  simp [(has_eq_false_iff.mp clear).1 op listed] at has

end Kind

namespace Snapshot

def state : Snapshot → State
  | .running _ state | .halted state => state

/-- The snapshot with a part of its state taken from another state. -/
def graft (effect : Effect) (donor : State) : Snapshot → Snapshot
  | .running id state => .running id (state.graft effect donor)
  | .halted state => .halted (state.graft effect donor)

end Snapshot

namespace Graph

variable {graph : Graph} {effect : Effect} {first last : Snapshot} {record : Record}
  {records : List Record}

theorem has_eq_false_iff : graph.effects.has effect = false ↔
    ∀ {id vertex}, graph.vertex? id = some vertex → vertex.kind.effects.has effect = false := by
  simp only [effects, Effects.has_unionAll, kinds, List.any_map, List.any_eq_false, Prod.forall,
    mem_vertices]
  simp

theorem Performs.graft (clear : graph.effects.has effect = false)
    (performs : graph.Performs first record last) (donor : State) :
    graph.Performs (first.graft effect donor) record (last.graft effect donor) := by
  cases performs with
  | move drawn found leaves =>
      have clearKind := has_eq_false_iff.mp clear found
      simp only [Snapshot.graft]
      rw [← Kind.events_graft clearKind _ donor, ← Kind.run_graft clearKind]
      apply Performs.move drawn found
      rw [Kind.edge_graft clearKind]
      exact leaves
  | halt found childless =>
      have clearKind := has_eq_false_iff.mp clear found
      simp only [Snapshot.graft]
      rw [← Kind.events_graft clearKind _ donor, ← Kind.run_graft clearKind]
      exact .halt found childless

theorem Performs.kept (clear : graph.effects.has effect = false)
    (performs : graph.Performs first record last) :
    last.state.graft effect first.state = last.state := by
  cases performs with
  | move drawn found leaves => exact Kind.graft_run (has_eq_false_iff.mp clear found) _
  | halt found childless => exact Kind.graft_run (has_eq_false_iff.mp clear found) _

theorem Performs.not_mem_events (clear : graph.effects.has effect = false)
    (performs : graph.Performs first record last) {event : Event} (seen : event ∈ record.events) :
    event.effect ≠ effect := by
  cases performs with
  | move drawn found leaves => exact Kind.not_mem_events (has_eq_false_iff.mp clear found) seen
  | halt found childless => exact Kind.not_mem_events (has_eq_false_iff.mp clear found) seen

theorem Performs.drawn_eq_none (clear : graph.effects.has .random = false)
    (performs : graph.Performs first record last) : record.drawn = none := by
  cases performs with
  | move drawn found leaves =>
      rename_i vertex state
      have clearExit := (Kind.has_eq_false_iff.mp (has_eq_false_iff.mp clear found)).2
      cases exit : vertex.kind.exit with
      | random => simp [exit, Exit.effects, Effects.has] at clearExit
      | next | popped | tested test => rfl
  | halt found childless => rfl

/-- A run goes the same way if only what the program does not touch is changed. -/
theorem Runs.graft (clear : graph.effects.has effect = false) (runs : graph.Runs first records last)
    (donor : State) : graph.Runs (first.graft effect donor) records (last.graft effect donor) := by
  induction runs with
  | refl snapshot => exact .refl _
  | step performs _ rest => exact .step (performs.graft clear donor) rest

theorem Runs.kept (clear : graph.effects.has effect = false)
    (runs : graph.Runs first records last) : last.state.graft effect first.state = last.state := by
  induction runs with
  | refl snapshot => exact State.graft_self _ _
  | @step start next final _ _ performs _ rest =>
      calc final.state.graft effect start.state
        _ = final.state.graft effect (next.state.graft effect start.state) :=
          (State.graft_graft ..).symm
        _ = final.state.graft effect next.state := by rw [performs.kept clear]
        _ = final.state := rest

theorem Runs.not_mem_events (clear : graph.effects.has effect = false)
    (runs : graph.Runs first records last) {event : Event}
    (seen : event ∈ records.flatMap Record.events) : event.effect ≠ effect := by
  induction runs with
  | refl snapshot => cases seen
  | step performs _ rest =>
      rw [List.flatMap_cons, List.mem_append] at seen
      rcases seen with now | later
      · exact performs.not_mem_events clear now
      · exact rest later

theorem Runs.drawnFrom (clear : graph.effects.has .random = false)
    (runs : graph.Runs first records last) (choices : Nat → Nat) : DrawnFrom choices records := by
  induction runs generalizing choices with
  | refl snapshot => trivial
  | step performs _ rest =>
      refine ⟨?_, rest _⟩
      intro edge drawn
      simp [performs.drawn_eq_none clear] at drawn

/-- The program has no use for the part of the state that the effect is about. -/
structure Ignores (graph : Graph) (effect : Effect) : Prop where
  /-- Runs that start with different contents of the part, and draw the same edges, pass the same
  vertices and show the same, and all other parts of their states agree. -/
  alike : ∀ {id state donor choices records others last final},
    graph.Runs (.running id state) records last →
    graph.Runs (.running id (state.graft effect donor)) others final →
    DrawnFrom choices records → DrawnFrom choices others → records.length = others.length →
    others = records ∧ final = last.graft effect donor
  /-- A run is possible with any contents of the part if it is with some. -/
  matched : ∀ {id state donor records last}, graph.Runs (.running id state) records last →
    graph.Runs (.running id (state.graft effect donor)) records (last.graft effect donor)
  /-- The part is never changed. -/
  kept : ∀ {id state records last}, graph.Runs (.running id state) records last →
    last.state.graft effect state = last.state

theorem ignores_of_clear (clear : graph.effects.has effect = false) : graph.Ignores effect where
  alike := by
    intro id state donor choices records others last final runs twinRuns drawn twinDrawn sameLength
    have twin := runs.graft clear donor
    rcases twin.unique twinRuns drawn twinDrawn sameLength with ⟨rfl, rfl⟩
    exact ⟨rfl, rfl⟩
  matched := by
    intro id state donor records last runs
    exact runs.graft clear donor
  kept := by
    intro id state records last runs
    exact runs.kept clear

/-- The effects of a program can be relied on. Without an effect on the stack, the grid or the
variables no run depends on them or changes them. Without output nothing is written, and without
input nothing is read. Without random choices a run is determined by the state in which it
starts. -/
theorem effects_sound (graph : Graph) :
    (graph.effects.stack = false → graph.Ignores .stack) ∧
    (graph.effects.grid = false → graph.Ignores .grid) ∧
    (graph.effects.vars = false → graph.Ignores .vars) ∧
    (graph.effects.output = false → ∀ {first events last}, graph.Steps first events last →
      ∀ format value, .output format value ∉ events) ∧
    (graph.effects.input = false → ∀ {first events last}, graph.Steps first events last →
      (∀ format value, .input format value ∉ events) ∧ last.state.input = first.state.input) ∧
    (graph.effects.random = false → ∀ {start records others last final},
      graph.Runs start records last → graph.Runs start others final →
      records.length = others.length → records = others ∧ last = final) := by
  refine ⟨fun clear => ignores_of_clear clear, fun clear => ignores_of_clear clear,
    fun clear => ignores_of_clear clear, ?_, ?_, ?_⟩
  · intro clear first events last steps format value seen
    have noOutput : graph.effects.has .output = false := clear
    rcases steps_iff_runs.mp steps with ⟨records, runs, rfl⟩
    exact runs.not_mem_events noOutput seen rfl
  · intro clear first events last steps
    have noInput : graph.effects.has .input = false := clear
    rcases steps_iff_runs.mp steps with ⟨records, runs, rfl⟩
    constructor
    · intro format value seen
      exact runs.not_mem_events noInput seen rfl
    · have kept : (last.state.graft .input first.state).input = last.state.input :=
        congrArg State.input (runs.kept noInput)
      exact kept.symm
  · intro clear start records others last final runs again sameLength
    have choices : Nat → Nat := fun _ => 0
    exact runs.unique again (runs.drawnFrom clear choices) (again.drawnFrom clear choices)
      sameLength

/-- Reads numbers into a variable and prints them until it reads zero. -/
def echoLoop : Graph where
  slots := #[
    some { kind := .single (.inputVar ⟨0⟩ .number), children := [⟨1⟩], parents := [⟨1⟩] },
    some { kind := .exprDecisionBlock [.print (.var ⟨0⟩) .number] (.var ⟨0⟩),
           children := [⟨0⟩, ⟨2⟩], parents := [⟨0⟩] },
    some { kind := .single (.printText "end"), parents := [⟨1⟩] }]
  root := some ⟨0⟩
  grid := .blank 2 2
  vars := #[⟨0, false⟩]

theorem effects_sound_echoLoop :
    echoLoop.validate = .ok () ∧
      echoLoop.effects = { vars := true, output := true, input := true } ∧
      echoLoop.Ignores .stack ∧ echoLoop.Ignores .grid ∧
      ∀ {start records others last final},
        echoLoop.Runs start records last → echoLoop.Runs start others final →
        records.length = others.length → records = others ∧ last = final := by
  have flags : echoLoop.effects = { vars := true, output := true, input := true } := by
    decide +kernel
  rcases echoLoop.effects_sound with ⟨stack, grid, -, -, -, random⟩
  exact ⟨by decide +kernel, flags, stack (by rw [flags]), grid (by rw [flags]),
    random (by rw [flags])⟩

end Graph

end StackFlow
