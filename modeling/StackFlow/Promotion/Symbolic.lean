import StackFlow.Graph.Basic

/-!
# Running a vertex on symbolic values

A symbolic value names what would be on the stack by the op that pushed it, so every execution of an
op pushes the same symbolic value. Below the values that were pushed there is one value more,
`underflow`, as often as it is asked for.

A `Use` records what one op, or the choice of an exit, does to the symbolic stack.
-/

namespace StackFlow.Promotion

/-- An op of a vertex. The number of ops stands for the choice of the exit. -/
structure Site where
  vertex : VertexId
  index : Nat
deriving DecidableEq

/-- A symbolic value. -/
inductive Value where
  /-- What the op at the site pushes. -/
  | pushed (site : Site)
  /-- What is found below everything that was pushed. -/
  | underflow
deriving DecidableEq

/-- A symbolic stack, top first. -/
abbrev Stack := List Value

/-- The top of the stack. -/
def top (stack : Stack) : Value :=
  stack.headD .underflow

/-- The `count` topmost values, top first. -/
def topmost : Nat → Stack → List Value
  | 0, _ => []
  | count + 1, stack => top stack :: topmost count stack.tail

/-- How a value is touched. -/
inductive Access where
  | read
  | write
  /-- Popped and pushed back unchanged. -/
  | readWrite
deriving DecidableEq

/-- The access puts the value on the stack. -/
def Access.isWrite : Access → Bool
  | .write | .readWrite => true
  | .read => false

/-- Some access puts the value on the stack. -/
def isWritten (accesses : List Access) : Bool :=
  accesses.any Access.isWrite

/-- What an op, or the choice of an exit, does to the symbolic stack. -/
structure Use where
  site : Site
  /-- The values popped, top first; for a copy the value that is copied. -/
  inputs : List Value
  /-- The value that expressions see on top. -/
  peeked : Option Value
  /-- How each value is touched. -/
  touches : List (Value × Access)
  /-- Values of which either all are moved off the stack or none. -/
  bound : List Value
  /-- The stack afterwards. -/
  after : Stack

/-- The use of an op. -/
def ofOp (site : Site) (op : Op) (stack : Stack) : Use :=
  let peeked := if op.readsStack then some (top stack) else none
  let peeks := peeked.toList.map (·, Access.read)
  match op with
  | .swap =>
    let inputs := topmost 2 stack
    { site, inputs, peeked
      touches := peeks ++ inputs.map (·, .readWrite)
      bound := inputs
      after := inputs.reverse ++ stack.drop 2 }
  | .dup =>
    { site, peeked
      inputs := [top stack]
      touches := peeks ++ [(top stack, .read), (.pushed site, .write)]
      bound := [top stack, .pushed site]
      after := .pushed site :: stack }
  | _ =>
    let inputs := topmost op.pops stack
    let outputs := List.replicate op.pushes (Value.pushed site)
    { site, inputs, peeked
      touches := peeks ++ inputs.map (·, .read) ++ outputs.map (·, .write)
      bound :=
        match op with
        | .math _ | .not | .get | .set => inputs ++ outputs
        | _ => []
      after := outputs ++ stack.drop op.pops }

/-- The use of an exit. -/
def ofExit (site : Site) (exit : Exit) (stack : Stack) : Use :=
  let inputs := if exit = .popped then [top stack] else []
  let peeked :=
    match exit with
    | .tested test => if test.readsStack then some (top stack) else none
    | _ => none
  { site, inputs, peeked
    touches := (peeked.toList ++ inputs).map (·, .read)
    bound := []
    after := stack.drop inputs.length }

/-- The uses of a run of ops, the first of which has the given index. -/
def ofOps (id : VertexId) : Nat → List Op → Stack → List Use
  | _, [], _ => []
  | index, op :: ops, stack =>
    let use := ofOp ⟨id, index⟩ op stack
    use :: ofOps id (index + 1) ops use.after

/-- The stack after a list of uses. -/
def stackAfter (stack : Stack) (uses : List Use) : Stack :=
  (uses.getLast?.map Use.after).getD stack

/-- The uses of a vertex: of its ops and then of its exit. -/
def ofKind (id : VertexId) (kind : Kind) (stack : Stack) : List Use :=
  let uses := ofOps id 0 kind.ops stack
  uses ++ [ofExit ⟨id, kind.ops.length⟩ kind.exit (stackAfter stack uses)]

end StackFlow.Promotion
