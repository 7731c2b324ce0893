import StackFlow.Rule.Basic

/-!
# The rules of the optimizer

Peephole rules turn stack traffic into expressions; fusion rules join straight runs into blocks.

Of the expressions that a peephole rule moves into one, only the first may read the top of the
stack: the others would see another top once the pushes before them are gone. Fusion rules copy
nothing, so a vertex with several predecessors always starts a block.
-/

namespace StackFlow

/-- The character with the code of the word. -/
def Word.char? (word : Word) : Option Char :=
  if 0 ≤ word ∧ word.toNatClampNeg.isValidChar then some (Char.ofNat word.toNatClampNeg) else none

namespace Op

/-- Pushes an expression. -/
def isPush : Op → Bool
  | .push _ => true
  | _ => false

/-- Pushes an expression that does not read the stack. -/
def isFreePush : Op → Bool
  | .push value => !value.readsStack
  | _ => false

/-- Pushes a copy of the top of the stack. -/
def isCopy : Op → Bool
  | .push .peek | .dup => true
  | _ => false

/-- The text that the op writes, if it is known and nothing else happens. -/
def fixedText? : Op → Option String
  | .print value .character => (value.constant?.bind Word.char?).map Char.toString
  | .printText text => some text
  | _ => none

end Op

namespace Rule

/-- The vertex is a single op with the property. -/
def single (property : Op → Bool) : Matcher :=
  fun vertex => vertex.kind.op?.any property

/-- The vertex is the given op. -/
def exactly (op : Op) : Matcher :=
  single (· = op)

/-- The vertex does not branch. -/
def straight : Matcher :=
  fun vertex => !vertex.kind.isSplit

/-- The expression a vertex pushes. -/
def pushedBy? (node : Node) : Option Expr :=
  match node.kind with
  | .single (.push value) => some value
  | _ => none

/-- Builds one vertex from the kinds of the chain, at all of its positions. -/
def fuse (build : List Kind → Option Kind) : Builder :=
  fun nodes positions => (build (nodes.map Node.kind)).map fun kind => { kind, positions }

/-- A vertex that does nothing is dropped. -/
def removeNop : Rule where
  name := "remove_nop"
  matchers := [exactly .nop]
  builders := []

/-- A push that is popped right away is dropped. -/
def pushPop : Rule where
  name := "push_pop"
  matchers := [single Op.isPush, exactly .pop]
  builders := []

/-- A copy that is popped right away is dropped. -/
def dupPop : Rule where
  name := "dup_pop"
  matchers := [exactly .dup, exactly .pop]
  builders := []

/-- Two exchanges are dropped. -/
def swapSwap : Rule where
  name := "swap_swap"
  matchers := [exactly .swap, exactly .swap]
  builders := []

/-- An operation on two pushed values is pushed as one value. -/
def foldMath : Rule where
  name := "fold_binary_math"
  matchers := [single Op.isPush, single Op.isFreePush, single fun | .math _ => true | _ => false]
  builders := [fuse fun
    | [.single (.push lhs), .single (.push rhs), .single (.math op)] =>
      some (.single (.push (.combine op lhs rhs)))
    | _ => none]

/-- The negation of a pushed value is pushed as one value. -/
def foldNot : Rule where
  name := "fold_not"
  matchers := [single Op.isPush, exactly .not]
  builders := [fuse fun
    | [.single (.push value), _] => some (.single (.push value.negation))
    | _ => none]

/-- A copy of a pushed value becomes a second push. -/
def duplicatePush : Rule where
  name := "duplicate_push"
  matchers := [single Op.isFreePush, single Op.isCopy]
  builders := [
    fun nodes _ => nodes[0]?,
    fun nodes _ =>
      match nodes with
      | [first, second] =>
        (pushedBy? first).map fun value => { second with kind := .single (.push value) }
      | _ => none]

/-- A copy of the top becomes a push of the top. -/
def dupToPeek : Rule where
  name := "dup_to_peek"
  matchers := [exactly .dup]
  builders := [fuse fun _ => some (.single (.push .peek))]

/-- Two pushes that are exchanged are done in the other order. -/
def swapPushes : Rule where
  name := "swap_pushes"
  matchers := [single Op.isFreePush, single Op.isFreePush, exactly .swap]
  builders := [
    fun nodes _ => nodes[1]?,
    fun nodes _ =>
      match nodes with
      | [first, _, swap] =>
        some { first with positions := Position.merge first.positions swap.positions }
      | _ => none]

/-- A grid read at pushed coordinates is pushed as one value. -/
def foldGet : Rule where
  name := "fold_get"
  matchers := [single Op.isPush, single Op.isFreePush, exactly .get]
  builders := [fuse fun
    | [.single (.push x), .single (.push y), _] => some (.single (.push (.memory x y)))
    | _ => none]

/-- A grid write of pushed operands becomes a store. -/
def foldSet : Rule where
  name := "fold_set"
  matchers := [single Op.isPush, single Op.isFreePush, single Op.isFreePush, exactly .set]
  builders := [fuse fun
    | [.single (.push value), .single (.push x), .single (.push y), _] =>
      some (.single (.store x y value))
    | _ => none]

/-- Output of a pushed value becomes output of an expression. -/
def foldOutput : Rule where
  name := "fold_output"
  matchers := [single Op.isPush, single fun | .output _ => true | _ => false]
  builders := [fuse fun
    | [.single (.push value), .single (.output format)] => some (.single (.print value format))
    | _ => none]

/-- Two outputs of known text become one. -/
def fuseText : Rule where
  name := "fuse_string_output"
  matchers := [single (·.fixedText?.isSome), single (·.fixedText?.isSome)]
  builders := [fuse fun
    | [.single first, .single second] => do
      return .single (.printText ((← first.fixedText?) ++ (← second.fixedText?)))
    | _ => none]

/-- Pushing a variable becomes a push of an expression. -/
def varGetToPush : Rule where
  name := "var_get_to_push"
  matchers := [single fun | .varGet _ => true | _ => false]
  builders := [fuse fun
    | [.single (.varGet var)] => some (.single (.push (.var var)))
    | _ => none]

/-- A pushed value that is popped into a variable is assigned to it. -/
def foldVarSet : Rule where
  name := "fold_var_set"
  matchers := [single Op.isPush, single fun | .varSet _ => true | _ => false]
  builders := [fuse fun
    | [.single (.push value), .single (.varSet var)] => some (.single (.assign var value))
    | _ => none]

/-- Input that is popped into a variable is read into it. -/
def foldInputVarSet : Rule where
  name := "fold_input_var_set"
  matchers :=
    [single fun | .input _ => true | _ => false, single fun | .varSet _ => true | _ => false]
  builders := [fuse fun
    | [.single (.input format), .single (.varSet var)] => some (.single (.inputVar var format))
    | _ => none]

/-- A decision on a pushed value becomes a decision on an expression. -/
def foldDecision : Rule where
  name := "fold_decision"
  matchers := [single Op.isPush, fun vertex => vertex.kind = .decision]
  builders := [fuse fun
    | [.single (.push value), _] => some (.exprDecision value)
    | _ => none]
  allowsBranch := true

/-- The rules that are run until nothing changes. -/
def peephole : List Rule :=
  [removeNop, pushPop, dupPop, swapSwap, foldMath, foldNot, duplicatePush, dupToPeek, swapPushes,
    foldGet, foldSet, foldOutput, fuseText, varGetToPush, foldVarSet, foldInputVarSet, foldDecision]

/-- Two straight vertices become a block. -/
def combineBlock : Rule where
  name := "combine_block"
  matchers := [straight, straight]
  builders := [fuse fun kinds => some (.block (kinds.flatMap Kind.ops))]
  extracts := false

/-- A straight vertex and a decision on a popped value become a decision block. -/
def combineDecisionBlock : Rule where
  name := "combine_decision_block"
  matchers := [straight, fun vertex => vertex.kind.popsTest]
  builders := [fuse fun kinds => some (.decisionBlock (kinds.flatMap Kind.ops))]
  allowsBranch := true
  extracts := false

/-- A straight vertex and a decision on an expression become a decision block. -/
def combineExprDecisionBlock : Rule where
  name := "combine_expr_decision_block"
  matchers := [straight, fun vertex => vertex.kind.test?.isSome]
  builders := [fuse fun
    | [first, second] =>
      second.test?.map fun test => .exprDecisionBlock (first.ops ++ second.ops) test
    | _ => none]
  allowsBranch := true
  extracts := false

/-- The rules that join straight runs once the graph is otherwise final. -/
def fusion : List Rule :=
  [combineBlock, combineDecisionBlock, combineExprDecisionBlock]

end Rule

end StackFlow
