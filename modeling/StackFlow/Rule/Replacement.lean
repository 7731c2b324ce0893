import StackFlow.Rule.Basic

/-!
# Replacements

What a rule puts in the place of a chain, or that it leaves the chain alone. A chain is left alone
when the root lies behind its head, when its end would have to be copied and may not be, when it
ends in a branch that the rule does not take, when the replacement changes nothing, and when a
vertex would become its own successor. A replacement that cannot take over the exits of the chain is
a fault of the rule.
-/

namespace StackFlow

/-- What stands in the place of a chain. -/
inductive Replacement where
  /-- Nothing: what leads to the chain leads straight to its exit. -/
  | bypass (exit : VertexId)
  /-- Another run of vertices. -/
  | nodes (first : Node) (rest : List Node)
deriving DecidableEq

namespace Replacement

/-- The vertices of the replacement. -/
def toList : Replacement → List Node
  | .bypass _ => []
  | .nodes first rest => first :: rest

/-- The replacement with the built vertices; `none` if nothing was built for a chain with several
exits. A chain that leads nowhere leaves a vertex behind that does nothing. -/
def ofNodes? (chain : Chain) : List Node → Option Replacement
  | first :: rest => some (.nodes first rest)
  | [] =>
    match chain.exits with
    | [] => some (.nodes ⟨.single .nop, chain.positions, chain.head.vertex.direction⟩ [])
    | [exit] => some (.bypass exit)
    | _ => none

end Replacement

namespace Rule

/-- The rule leaves the chain alone, whatever it would build. -/
def declines (rule : Rule) (graph : Graph) (chain : Chain) : Bool :=
  let behindHead := chain.rest.map Link.id
  graph.root.any (· ∈ behindHead)
    || (!chain.shared.isEmpty && (!rule.extracts || chain.shared.any (graph.onCycle ·.id)))
    || (chain.exits.length > 1 && !rule.allowsBranch)

/-- What the builders make of the chain. All vertices take the direction of the chain's head. -/
def build? (rule : Rule) (chain : Chain) : Option (List Node) :=
  rule.builders.mapM fun builder =>
    (builder chain.nodes chain.positions).map ({ · with direction := chain.head.vertex.direction })

/-- The replacement does the same as the chain, or would make a vertex its own successor. -/
def isIdle (chain : Chain) (nodes : List Node) : Bool :=
  nodes.map Node.kind = chain.nodes.map Node.kind
    || (chain.head.id ∈ chain.exits && nodes.length ≤ 1)

/-- The reason why a run of vertices cannot take over the exits of a chain. -/
def spliceFault? (nodes : List Node) (exits : Nat) : Option SpliceFault :=
  match nodes.getLast? with
  | none => none
  | some last =>
    if nodes.dropLast.any (·.kind.isSplit) then some .branchInside
    else
      match last.kind.arity? with
      | some arity => if arity = exits then none else some (.exits last.kind.name arity exits)
      | none => if exits ≤ 1 then none else some (.exits last.kind.name 1 exits)

/-- What the rule puts in the place of the chain; `none` leaves it alone. -/
def replacement? (rule : Rule) (graph : Graph) (chain : Chain) :
    Except GraphError (Option Replacement) :=
  if rule.declines graph chain then .ok none
  else
    match rule.build? chain with
    | none => .error (.invalidSplice rule.name .refused)
    | some nodes =>
      match Replacement.ofNodes? chain nodes with
      | none => .ok none
      | some replacement =>
        if isIdle chain replacement.toList then .ok none
        else
          match spliceFault? replacement.toList chain.exits.length with
          | some fault => .error (.invalidSplice rule.name fault)
          | none => .ok (some replacement)

end Rule

end StackFlow
