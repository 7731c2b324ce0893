import Mathlib
import StackFlow.Proofs.Promotion.Soundness

/-!
# Promotion never fails

An op that is changed must find its operands and its result all in variables or
all on the stack; anything else would be an error in the middle of the pass, with
some vertices changed and others not. The bonds of the analysis exclude it. They
tie together what an op takes and what it makes, except for ops that touch no more
than one value, where nothing can be mixed.

All that the pass needs is that the root reaches no missing vertex. Vertices that
the root does not reach may be in any state.
-/

namespace StackFlow

namespace Promotion

/-- The use takes the value from the stack or makes it. -/
def Use.Involves (use : Use) (value : Value) : Prop :=
  value ∈ use.inputs ∨ use.Pushes value

theorem involved_ofOp (site : Site) (op : Op) (stack : Stack) :
    (∀ value, (ofOp site op stack).Involves value → value ∈ (ofOp site op stack).bound) ∨
      ∃ single, ∀ value, (ofOp site op stack).Involves value → value = single := by
  simp only [Use.Involves, pushes_ofOp_iff]
  cases op with
  | swap | dup | math operator | not | get | set =>
      left
      rintro value (input | ⟨rfl, produces⟩)
      · simp_all [ofOp]
      · simp_all [ofOp, Op.produces, Op.pushes]
  | pop | varSet target | output format =>
      refine .inr ⟨top stack, ?_⟩
      rintro value (input | ⟨-, produces⟩)
      · simpa [ofOp, Op.pops, topmost] using input
      · simp [Op.produces, Op.pushes] at produces
  | nop | push value | load x y | store x y value | varGet source | assign var value
  | print value format | printText text | input format | inputVar var format =>
      refine .inr ⟨.pushed site, ?_⟩
      rintro value (input | ⟨rfl, -⟩)
      · simp [ofOp, Op.pops, topmost] at input
      · rfl

theorem involved_ofExit (site : Site) (exit : Exit) (stack : Stack) :
    ∀ value, (ofExit site exit stack).Involves value → value = top stack := by
  rintro value (input | pushes)
  · cases exit with
    | popped => simpa [ofExit] using input
    | next | tested test | random => simp [ofExit] at input
  · exact absurd pushes not_pushes_ofExit

namespace Facts

variable {facts : Facts}

/-- The values that a use takes and makes are all promoted or all stay on the stack. -/
def Unmixed (facts : Facts) (use : Use) : Prop :=
  (∀ value, use.Involves value → value ∈ facts.promoted) ∨
    ∀ value, use.Involves value → value ∉ facts.promoted

theorem unmixed_of_single {use : Use} {single : Value}
    (only : ∀ value, use.Involves value → value = single) : facts.Unmixed use := by
  by_cases promoted : single ∈ facts.promoted
  · exact .inl fun value involved => only value involved ▸ promoted
  · exact .inr fun value involved => only value involved ▸ promoted

theorem unmixed_of_bound (explored : Explored facts.graph facts.visits) {use : Use}
    (member : use ∈ facts.uses) (bound : ∀ value, use.Involves value → value ∈ use.bound) :
    facts.Unmixed use := by
  have together : AllOrNone (facts.assignment 0) use.bound := allOrNone_bound explored member
  rcases together with stay | leave
  · exact .inr fun value involved => var?_eq_none_iff.mp (stay value (bound value involved))
  · refine .inl fun value involved => ?_
    by_contra unpromoted
    have hasVar := leave value (bound value involved)
    simp [var?_eq_none_iff.mpr unpromoted] at hasVar

/-- No op ever finds some of its values in variables and others on the stack. -/
theorem unmixed (explored : Explored facts.graph facts.visits) {use : Use}
    (member : use ∈ facts.uses) : facts.Unmixed use := by
  rcases mem_uses.mp member with ⟨visit, -, inUses⟩
  rcases exists_vertex_of_mem_uses inUses with ⟨vertex, found⟩
  rw [uses_eq found] at inUses
  rcases List.getElem?_of_mem inUses with ⟨place, present⟩
  rcases form_ofKind present with ⟨op, before, -, rfl⟩ | ⟨-, before, rfl⟩
  · rcases involved_ofOp ⟨visit.vertex, place⟩ op before with bound | ⟨single, only⟩
    · exact unmixed_of_bound explored member bound
    · exact unmixed_of_single only
  · exact unmixed_of_single (involved_ofExit _ _ _)

end Facts

end Promotion

namespace Graph

open Promotion

variable {graph : Graph}

/-- The other graph differs at most in what its vertices do and in its variables. -/
structure Reworked (graph other : Graph) : Prop where
  kinds : ∃ change, graph.Rekinded other change
  size : other.slots.size = graph.slots.size
  grid : other.grid = graph.grid

theorem Reworked.refl (graph : Graph) : graph.Reworked graph where
  kinds := by
    refine ⟨fun _ kind => kind, rfl, fun id => ?_, fun _ => rfl⟩
    cases graph.vertex? id <;> rfl
  size := rfl
  grid := rfl

theorem Reworked.validate_iff {other : Graph} (reworked : graph.Reworked other) :
    other.validate = .ok () ↔ graph.validate = .ok () := by
  rcases reworked.kinds with ⟨change, rekinded⟩
  exact rekinded.validate_iff

theorem reworked_promotion {facts : Facts} (explored : Explored facts.graph facts.visits) :
    facts.graph.Reworked facts.promotion where
  kinds := ⟨facts.change, Facts.promotion_rekinded explored⟩
  size := by simp [Facts.promotion, mapVertices, declare]
  grid := rfl

/-- Moving values to variables never fails where the root reaches no missing vertex, whatever the
limit. At every op the values that it takes and makes are all promoted or all left on the stack. The
pass changes nothing but what the vertices do and the list of variables. Every vertex keeps its
edges and positions and the number of edges it has to have, so the check accepts the new graph just
if it accepts the old one. -/
theorem promoteValues_total {root : VertexId} (start : graph.root = some root)
    (live : ∀ id, graph.edges.Reaches root id → graph.contains id = true) (limit : Nat) :
    ∃ visits other, Promotion.visits graph limit root = .ok visits ∧
      graph.promoteValues limit = .ok (other, (⟨graph, visits⟩ : Facts).promoted.length) ∧
      (∀ use ∈ (⟨graph, visits⟩ : Facts).uses, (⟨graph, visits⟩ : Facts).Unmixed use) ∧
      graph.Reworked other ∧ (other.validate = .ok () ↔ graph.validate = .ok ()) := by
  rcases exists_promotedBy start live limit with ⟨facts, rfl, explores, -, -, explored, result⟩
  have reworked : facts.graph.Reworked
      (if facts.promoted = [] then facts.graph else facts.promotion) := by
    split
    · exact .refl facts.graph
    · exact reworked_promotion explored
  exact ⟨facts.visits, _, explores, result, fun use => facts.unmixed explored, reworked,
    reworked.validate_iff⟩

/-- The printing loop and beside it a decision that nothing leads to, with an edge to a missing
vertex. -/
def strayDecision : Graph :=
  { printingLoop with
    slots := printingLoop.slots.push (some { kind := .decision, children := [⟨7⟩] }) }

theorem promoteValues_total_strayDecision :
    strayDecision.root = some ⟨0⟩ ∧
      (∀ id, strayDecision.edges.Reaches ⟨0⟩ id → strayDecision.contains id = true) ∧
      strayDecision.validate ≠ .ok () ∧
      ∃ visits other, Promotion.visits strayDecision 4 ⟨0⟩ = .ok visits ∧
        strayDecision.promoteValues 4 =
          .ok (other, (⟨strayDecision, visits⟩ : Facts).promoted.length) ∧
        (∀ use ∈ (⟨strayDecision, visits⟩ : Facts).uses,
          (⟨strayDecision, visits⟩ : Facts).Unmixed use) ∧
        strayDecision.Reworked other ∧
          (other.validate = .ok () ↔ strayDecision.validate = .ok ()) := by
  have start : strayDecision.root = some ⟨0⟩ := rfl
  have walked : ∀ id ∈ strayDecision.walk, strayDecision.contains id = true := by decide +kernel
  have live : ∀ id, strayDecision.edges.Reaches ⟨0⟩ id → strayDecision.contains id = true :=
    fun id reached => walked id ((mem_walk_iff start).mpr reached)
  exact ⟨start, live, by decide +kernel, promoteValues_total start live 4⟩

end Graph

end StackFlow
