import StackFlow.Rule.Splice

/-!
# Applying rules

One scan tries a rule at every vertex that the root reaches, nearest first. A vertex that an earlier
replacement of the scan has removed is passed over.
-/

namespace StackFlow

namespace Rule

/-- Applies the rule to the chain that starts at a vertex; `none` if there is nothing to replace. -/
def applyAt? (rule : Rule) (graph : Graph) (head : VertexId) :
    Except GraphError (Option Graph) := do
  match ← graph.chain? rule.matchers head with
  | none => return none
  | some chain =>
    match ← rule.replacement? graph chain with
    | none => return none
    | some replacement => return some (← graph.splice chain replacement)

/-- What a scan leaves behind. -/
structure Scan where
  graph : Graph
  /-- The number of chains replaced. -/
  applied : Nat
  /-- Why the scan stopped early. -/
  failure : Option GraphError

/-- Applies the rule at each of the vertices in turn. -/
def scanFrom (rule : Rule) : Graph → List VertexId → Scan
  | graph, [] => ⟨graph, 0, none⟩
  | graph, head :: heads =>
    match rule.applyAt? graph head with
    | .error error => ⟨graph, 0, some error⟩
    | .ok none => rule.scanFrom graph heads
    | .ok (some changed) =>
      let scan := rule.scanFrom changed heads
      { scan with applied := scan.applied + 1 }

/-- Applies the rule at every vertex that the root reaches. -/
def scan (rule : Rule) (graph : Graph) : Scan :=
  rule.scanFrom graph graph.walk

/-- Scans the graph once; gives the new graph and the number of chains replaced. -/
def apply (rule : Rule) (graph : Graph) : Except GraphError (Graph × Nat) :=
  let scan := rule.scan graph
  match scan.failure with
  | some error => .error error
  | none => .ok (scan.graph, scan.applied)

/-- Scans the graph until a scan changes nothing, at most `limit` times. -/
def saturate (rule : Rule) : Nat → Graph → Except GraphError (Graph × Nat)
  | 0, graph => .ok (graph, 0)
  | limit + 1, graph => do
    let (changed, applied) ← rule.apply graph
    if applied = 0 then .ok (changed, 0)
    else
      let (final, total) ← rule.saturate limit changed
      return (final, applied + total)

end Rule

end StackFlow
