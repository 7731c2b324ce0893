import Mathlib
import StackFlow.Proofs.Machine.Similar
import StackFlow.Proofs.Rule.Cost
import StackFlow.Rule.Catalog
import StackFlow.Rule.Replacement

/-!
# What may stand in the place of a chain

A run of vertices imitates another if it shows the same, leaves a similar state and
is left by the same edge. This is a fact about runs on the machine; where they stand
in a graph does not matter.

More is asked of what a rule builds, each thing for a reason of its own. It mentions
no other variables, so that what was declared still is. It branches at its end only
and by as many edges, so that the exits of the chain suit it. It looks at the top of
the stack only where the chain has looked and seen the same. And it costs less than
the chain.
-/

namespace StackFlow

/-- The first run of vertices does the same as the second. -/
structure Imitates (others kinds : List Kind) : Prop where
  shown : ∀ state : State, state.shown others = state.shown kinds
  through : ∀ state : State, (state.through others).Similar (state.through kinds)
  edge : ∀ (state : State) (drawn : Nat), state.edge others drawn = state.edge kinds drawn

/-- The first run of vertices does the same as the second and mentions no other variables. -/
structure Replaces (others kinds : List Kind) : Prop extends Imitates others kinds where
  vars : others.flatMap Kind.vars ⊆ kinds.flatMap Kind.vars

/-- The first run of vertices can stand in the place of the second wherever it is: moreover it has
the same kind of exit, what it sees on top of the stack the second run has seen there too, and it
costs less. -/
structure Supplants (others kinds : List Kind) : Prop extends Replaces others kinds where
  straight : ∀ kind ∈ others.dropLast, kind.exit = .next
  arity : ∀ {last final : Kind}, others.getLast? = some last → kinds.getLast? = some final →
    last.arity? = final.arity?
  peeked : ∀ state : State, (state.peeked others).Sublist (state.peeked kinds)
  cheaper : Cheaper others kinds

/-- Doing nothing can be left to a vertex that does nothing. -/
theorem Imitates.nop {kinds : List Kind} (imitates : Imitates [] kinds) :
    Imitates [.single .nop] kinds :=
  ⟨imitates.shown, imitates.through, imitates.edge⟩

section Ops

variable (state : State) (ops : List Op)

theorem shown_map_single : state.shown (ops.map .single) = state.events ops := by
  induction ops generalizing state with
  | nil => rfl
  | cons op ops ih => simp [State.events, ih]

theorem through_map_single : state.through (ops.map .single) = state.run ops := by
  induction ops generalizing state with
  | nil => rfl
  | cons op ops ih => exact ih (op.run state)

theorem edge_map_single (drawn : Nat) : state.edge (ops.map .single) drawn = 0 := by
  induction ops generalizing state with
  | nil => rfl
  | cons op ops ih =>
      cases ops with
      | nil => rfl
      | cons next ops => exact ih (op.run state)

theorem peeked_map_single : state.peeked (ops.map .single) = state.peekedBy ops := by
  induction ops generalizing state with
  | nil => rfl
  | cons op ops ih => simp [State.peeked, State.peekedBy, Kind.ops, Kind.test?, Kind.exit, ih]

end Ops

/-- Runs of single ops can be compared op by op. -/
theorem supplants_of_ops (others ops : List Op)
    (events : ∀ state : State, state.events others = state.events ops)
    (run : ∀ state : State, (state.run others).Similar (state.run ops))
    (vars : others.flatMap Op.vars ⊆ ops.flatMap Op.vars)
    (peeked : ∀ state : State, (state.peekedBy others).Sublist (state.peekedBy ops))
    (cheaper : Cheaper (others.map .single) (ops.map .single)) :
    Supplants (others.map .single) (ops.map .single) where
  shown state := by
    rw [shown_map_single, shown_map_single, events]
  through state := by
    rw [through_map_single, through_map_single]
    exact run state
  edge state drawn := by
    rw [edge_map_single, edge_map_single]
  vars := by
    intro var member
    simp only [List.mem_flatMap, List.mem_map, exists_exists_and_eq_and,
      Kind.mem_vars_single] at member ⊢
    simpa only [List.mem_flatMap] using vars (List.mem_flatMap.mpr member)
  straight := by
    intro kind member
    rcases List.mem_map.mp (List.dropLast_subset _ member) with ⟨op, -, rfl⟩
    rfl
  arity := by
    intro last final isLast isFinal
    rw [List.getLast?_map, Option.map_eq_some_iff] at isLast isFinal
    rcases isLast with ⟨op, -, rfl⟩
    rcases isFinal with ⟨other, -, rfl⟩
    rfl
  peeked state := by
    rw [peeked_map_single, peeked_map_single]
    exact peeked state
  cheaper := cheaper

/-- A straight vertex can be joined with the one after it. -/
theorem supplants_of_fusion {first second fused : Kind} (straight : first.exit = .next)
    (isBlock : fused.isBlock = true) (ops : fused.ops = first.ops ++ second.ops)
    (exit : fused.exit = second.exit) : Supplants [fused] [first, second] := by
  have ran (state : State) : state.run fused.ops = (first.run state).run second.ops := by
    simp [ops, State.run_append, Kind.run, straight, Exit.run]
  have tests : fused.test? = second.test? := by simp [Kind.test?, exit]
  refine ⟨⟨⟨?_, ?_, ?_⟩, ?_⟩, by simp, ?_, ?_, cheaper_of_fusion straight isBlock ops exit⟩
  · intro state
    simp [Kind.events, Kind.run, ops, State.events_append, straight, Exit.run]
  · intro state
    apply State.Similar.of_eq
    rw [State.through_cons, State.through_cons, State.through_cons, Kind.run, Kind.run, ran, exit]
  · intro state drawn
    simp [Kind.edge, ran, exit]
  · intro var
    simp only [List.flatMap_cons, List.flatMap_nil, List.append_nil, List.mem_append, Kind.mem_vars,
      ops, tests]
    rintro (⟨op, member | member, occurs⟩ | tested)
    · exact .inl (.inl ⟨op, member, occurs⟩)
    · exact .inr (.inl ⟨op, member, occurs⟩)
    · exact .inr (.inr tested)
  · rintro last final ⟨⟩ ⟨⟩
    simp [Kind.arity?, exit]
  · intro state
    have untested : first.test? = none := by simp [Kind.test?, straight]
    simp [State.peeked, tests, untested, ops, State.peekedBy_append, State.run_append, Kind.run,
      straight, Exit.run]

theorem Chain.map_kind_nodes (chain : Chain) :
    chain.nodes.map Node.kind = chain.links.map (·.vertex.kind) := by
  simp [Chain.nodes, Function.comp_def]

namespace Rule

/-- The vertices of the chain pass the tests of the rule, one test for each vertex. -/
def Accepts (rule : Rule) (chain : Chain) : Prop :=
  List.Forall₂ (fun matcher link => matcher link.vertex = true) rule.matchers chain.links

/-- Whatever the rule builds does the same as the chain and mentions no other variables. -/
def Sound (rule : Rule) : Prop :=
  ∀ ⦃chain : Chain⦄ ⦃nodes : List Node⦄, rule.Accepts chain → rule.build? chain = some nodes →
    Replaces (nodes.map Node.kind) (chain.nodes.map Node.kind)

/-- The rule builds something for every chain that it accepts, and that can stand in its place. -/
def Reliable (rule : Rule) : Prop :=
  ∀ ⦃chain : Chain⦄, rule.Accepts chain →
    ∃ nodes, rule.build? chain = some nodes ∧
      Supplants (nodes.map Node.kind) (chain.nodes.map Node.kind)

theorem Reliable.sound {rule : Rule} (reliable : rule.Reliable) : rule.Sound := by
  intro chain nodes accepted built
  rcases reliable accepted with ⟨_, builtAgain, supplants⟩
  cases built.symm.trans builtAgain
  exact supplants.toReplaces

/-- A rule that builds nothing is judged by what the chain does. -/
theorem reliable_of_drop {rule : Rule} (builders : rule.builders = [])
    (supplants : ∀ {links : List Link},
      List.Forall₂ (fun matcher link => matcher link.vertex = true) rule.matchers links →
        Supplants [] (links.map (·.vertex.kind))) : rule.Reliable := by
  intro chain accepted
  refine ⟨[], by simp [build?, builders], ?_⟩
  rw [chain.map_kind_nodes]
  exact supplants accepted

/-- A rule that builds one vertex is judged by its kind. -/
theorem reliable_of_fuse {rule : Rule} {build : List Kind → Option Kind}
    (builders : rule.builders = [fuse build])
    (supplants : ∀ {links : List Link},
      List.Forall₂ (fun matcher link => matcher link.vertex = true) rule.matchers links →
      ∃ kind, build (links.map (·.vertex.kind)) = some kind ∧
      Supplants [kind] (links.map (·.vertex.kind))) : rule.Reliable := by
  intro chain accepted
  rcases supplants accepted with ⟨kind, fused, stands⟩
  refine ⟨[⟨kind, chain.positions, chain.head.vertex.direction⟩], ?_, ?_⟩
  · simp [build?, builders, fuse, chain.map_kind_nodes, fused]
  · rw [chain.map_kind_nodes]
    exact stands

end Rule

end StackFlow
