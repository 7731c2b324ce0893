import StackFlow.Expr.Eval
import StackFlow.Grid
import StackFlow.Vertex

/-!
# The machine

The machine that programs are written for: a stack, variables, a memory grid and a stream of input.
Popping the empty stack yields zero and leaves it empty.

What can be seen of a run from outside are its events. A text counts as one event for each of its
characters, so that it makes no difference whether it is written at once or piece by piece.
-/

namespace StackFlow

/-- What a running program does that can be seen from outside. -/
inductive Event where
  /-- A word is written. -/
  | output (format : Format) (value : Word)
  /-- A word is read. -/
  | input (format : Format) (value : Word)
deriving DecidableEq

/-- The state of the machine. -/
structure State where
  /-- The stack, top first. -/
  stack : List Word
  /-- The variables. -/
  vars : VarId → Word
  /-- The memory grid. -/
  grid : Grid
  /-- The words that will be read. -/
  input : Nat → Word

namespace State

/-- The value that lies the given number of places below the top; zero below the bottom. -/
def operand (state : State) (place : Nat) : Word :=
  state.stack.getD place 0

/-- What expressions see. -/
def env (state : State) : Env where
  top := state.operand 0
  vars := state.vars
  cell := state.grid.read

/-- Pops values and then pushes others, the last of which comes to lie on top. -/
def replace (state : State) (pops : Nat) (pushes : List Word) : State :=
  { state with stack := pushes.reverse ++ state.stack.drop pops }

/-- Assigns a value to a variable. -/
def assign (state : State) (var : VarId) (value : Word) : State :=
  { state with vars := fun other => if other = var then value else state.vars other }

/-- Writes a value to a cell. -/
def store (state : State) (x y value : Word) : State :=
  { state with grid := state.grid.write x y value }

/-- Passes over the first word of the input. -/
def skipInput (state : State) : State :=
  { state with input := fun index => state.input (index + 1) }

end State

namespace Op

/-- The state after an op. -/
def run (op : Op) (state : State) : State :=
  match op with
  | .nop | .print _ _ | .printText _ => state
  | .push value => state.replace 0 [value.eval state.env]
  | .pop | .output _ => state.replace 1 []
  | .dup => state.replace 1 [state.operand 0, state.operand 0]
  | .swap => state.replace 2 [state.operand 0, state.operand 1]
  | .math op => state.replace 2 [op.evaluate (state.operand 1) (state.operand 0)]
  | .not => state.replace 1 [if state.operand 0 = 0 then 1 else 0]
  | .get => state.replace 2 [state.grid.read (state.operand 1) (state.operand 0)]
  | .set => (state.store (state.operand 1) (state.operand 0) (state.operand 2)).replace 3 []
  | .load x y => state.replace 0 [state.grid.read (x.eval state.env) (y.eval state.env)]
  | .store x y value => state.store (x.eval state.env) (y.eval state.env) (value.eval state.env)
  | .varGet var => state.replace 0 [state.vars var]
  | .varSet var => (state.assign var (state.operand 0)).replace 1 []
  | .assign var value => state.assign var (value.eval state.env)
  | .input _ => state.skipInput.replace 0 [state.input 0]
  | .inputVar var _ => state.skipInput.assign var (state.input 0)

/-- What can be seen of an op. -/
def events (op : Op) (state : State) : List Event :=
  match op with
  | .output format => [.output format (state.operand 0)]
  | .print value format => [.output format (value.eval state.env)]
  | .printText text => text.toList.map fun char => .output .character (.ofNat char.toNat)
  | .input format | .inputVar _ format => [.input format (state.input 0)]
  | .nop | .push _ | .pop | .dup | .swap | .math _ | .not | .get | .set | .load _ _ | .store _ _ _
  | .varGet _ | .varSet _ | .assign _ _ => []

end Op

namespace State

/-- The state after a run of ops. -/
def run : State → List Op → State
  | state, [] => state
  | state, op :: ops => run (op.run state) ops

/-- What can be seen of a run of ops. -/
def events : State → List Op → List Event
  | _, [] => []
  | state, op :: ops => op.events state ++ events (op.run state) ops

end State

namespace Exit

/-- The state after an exit. -/
def run (exit : Exit) (state : State) : State :=
  match exit with
  | .popped => state.replace 1 []
  | .next | .tested _ | .random => state

/-- The number of the edge by which the vertex is left. A random exit leaves by whichever edge was
drawn. -/
def edge (exit : Exit) (drawn : Nat) (state : State) : Nat :=
  let branch (value : Word) : Nat := if value ≠ 0 then 0 else 1
  match exit with
  | .next => 0
  | .popped => branch (state.operand 0)
  | .tested test => branch (test.eval state.env)
  | .random => drawn

end Exit

namespace Kind

/-- The state after a vertex. -/
def run (kind : Kind) (state : State) : State :=
  kind.exit.run (state.run kind.ops)

/-- What can be seen of a vertex. -/
def events (kind : Kind) (state : State) : List Event :=
  state.events kind.ops

/-- The number of the edge by which the vertex is left. -/
def edge (kind : Kind) (drawn : Nat) (state : State) : Nat :=
  kind.exit.edge drawn (state.run kind.ops)

end Kind

end StackFlow
