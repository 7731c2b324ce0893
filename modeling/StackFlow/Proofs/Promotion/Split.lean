import Mathlib
import StackFlow.Machine
import StackFlow.Promotion.Assignment

/-!
# Stacks split between variables and the stack

Each value on the stack of a running program carries a tag, which names the op
that pushed it. A value whose tag has a variable lives in that variable, and the
other values lie on the stack in the same order as before.

`Split` relates the state of the original program to the state of the program
after the promotion. The lemmas say how a state is changed so that it stays split;
the ops are put together from them in `StackFlow.Proofs.Promotion.Ops`.
-/

namespace StackFlow.Promotion

/-- The value that lies the given number of places below the top. -/
def valueAt (stack : Stack) (place : Nat) : Value :=
  stack.getD place .underflow

@[simp]
theorem valueAt_cons_zero (value : Value) (stack : Stack) :
    valueAt (value :: stack) 0 = value := rfl

@[simp]
theorem valueAt_cons_succ (value : Value) (stack : Stack) (place : Nat) :
    valueAt (value :: stack) (place + 1) = valueAt stack place := by
  simp [valueAt]

@[simp]
theorem valueAt_nil (place : Nat) : valueAt [] place = .underflow := by
  simp [valueAt]

theorem valueAt_drop (stack : Stack) (count place : Nat) :
    valueAt (stack.drop count) place = valueAt stack (count + place) := by
  simp [valueAt, List.getD_eq_getElem?_getD]

theorem top_eq_valueAt (stack : Stack) : top stack = valueAt stack 0 := by
  cases stack <;> rfl

theorem topmost_eq_map_valueAt (count : Nat) (stack : Stack) :
    topmost count stack = (List.range count).map (valueAt stack) := by
  induction count generalizing stack with
  | zero => rfl
  | succ count rest =>
      rw [topmost, rest, List.range_succ_eq_map, List.map_cons, List.map_map, top_eq_valueAt]
      congr 1
      apply List.map_congr_left
      intro place _
      cases stack <;> simp

@[simp]
theorem length_topmost (count : Nat) (stack : Stack) : (topmost count stack).length = count := by
  simp [topmost_eq_map_valueAt]

theorem mem_topmost {count : Nat} {stack : Stack} {value : Value} :
    value ∈ topmost count stack ↔ ∃ place < count, valueAt stack place = value := by
  simp [topmost_eq_map_valueAt]

theorem forall_mem_topmost {count : Nat} {stack : Stack} {holds : Value → Prop} :
    (∀ value ∈ topmost count stack, holds value) ↔
      ∀ place < count, holds (valueAt stack place) := by
  simp [topmost_eq_map_valueAt]

/-- The tags of the stack after an op. What an op finds below the bottom of the stack is tagged as
such. -/
def tagsAfterOp (site : Site) (op : Op) (tags : Stack) : Stack :=
  match op with
  | .swap => valueAt tags 1 :: valueAt tags 0 :: tags.drop 2
  | .dup => .pushed site :: valueAt tags 0 :: tags.drop 1
  | _ => List.replicate op.pushes (.pushed site) ++ tags.drop op.pops

/-- The tags of the stack after a run of ops, the first of which has the given index. -/
def tagsAfterOps (id : VertexId) : Nat → List Op → Stack → Stack
  | _, [], tags => tags
  | index, op :: ops, tags => tagsAfterOps id (index + 1) ops (tagsAfterOp ⟨id, index⟩ op tags)

/-- The tags of the stack after a vertex. -/
def tagsAfterKind (id : VertexId) (kind : Kind) (tags : Stack) : Stack :=
  (tagsAfterOps id 0 kind.ops tags).drop (if kind.popsTest then 1 else 0)

/-- Variables from `base` on are given to values, none of them to what lies below the bottom. -/
structure Assignment.Fresh (assignment : Assignment) (base : Nat) : Prop where
  underflow : assignment.var? .underflow = none
  base_le : ∀ {value var}, assignment.var? value = some var → base ≤ var.index

/-- The stack of the first state consists of the entries, each with its tag. In the second state
the entries with a variable are in their variables, and the others on the stack. -/
structure Split (assignment : Assignment) (base : Nat) (entries : List (Value × Word))
    (state twin : State) : Prop where
  stack : state.stack = entries.map (·.2)
  kept : twin.stack = (entries.filter fun entry => (assignment.var? entry.1).isNone).map (·.2)
  moved : ∀ entry ∈ entries, ∀ {var}, assignment.var? entry.1 = some var → twin.vars var = entry.2
  vars : ∀ var, var.index < base → twin.vars var = state.vars var
  grid : twin.grid = state.grid
  input : twin.input = state.input

namespace Split

variable {assignment : Assignment} {base : Nat} {entries : List (Value × Word)} {state twin : State}

/-- The tags of the entries. -/
abbrev tags (entries : List (Value × Word)) : Stack :=
  entries.map (·.1)

theorem operand_eq (split : Split assignment base entries state twin) (place : Nat) :
    state.operand place = (entries.map (·.2)).getD place 0 := by
  rw [State.operand, split.stack]

/-- What a promoted value was on the stack stands in its variable. -/
theorem var_eq_operand (split : Split assignment base entries state twin)
    (fresh : assignment.Fresh base) {place : Nat} {var : VarId}
    (found : assignment.var? (valueAt (tags entries) place) = some var) :
    twin.vars var = state.operand place := by
  rw [split.operand_eq]
  cases present : entries[place]? with
  | none =>
      have outside : valueAt (tags entries) place = .underflow := by
        simp [valueAt, tags, List.getD_eq_getElem?_getD, present]
      rw [outside, fresh.underflow] at found
      cases found
  | some entry =>
      have tag : valueAt (tags entries) place = entry.1 := by
        simp [valueAt, tags, List.getD_eq_getElem?_getD, present]
      have word : (entries.map (·.2)).getD place 0 = entry.2 := by
        simp [List.getD_eq_getElem?_getD, present]
      rw [word]
      exact split.moved entry (List.mem_of_getElem? present) (tag ▸ found)

/-- As long as no promoted value lies above it, a value is found at the same place. -/
theorem operand_kept (split : Split assignment base entries state twin) {place : Nat}
    (stays : ∀ above ≤ place, assignment.var? (valueAt (tags entries) above) = none) :
    twin.operand place = state.operand place := by
  rw [split.operand_eq, State.operand, split.kept]
  clear split
  induction entries generalizing place with
  | nil => rfl
  | cons entry entries rest =>
      have first : assignment.var? entry.1 = none := stays 0 (Nat.zero_le _)
      rw [List.filter_cons_of_pos (by simp [first])]
      cases place with
      | zero => rfl
      | succ place =>
          simp only [List.map_cons, List.getD_cons_succ]
          apply rest
          intro above bound
          simpa [tags] using stays (above + 1) (Nat.succ_le_succ bound)

/-- Values on the stack are popped in both programs. -/
theorem drop_kept (split : Split assignment base entries state twin) {count : Nat}
    (stays : ∀ place < count, assignment.var? (valueAt (tags entries) place) = none) :
    Split assignment base (entries.drop count) (state.replace count [])
      (twin.replace count []) where
  stack := by simp [State.replace, split.stack, List.map_drop]
  kept := by
    simp only [State.replace, List.reverse_nil, List.nil_append, split.kept, ← List.map_drop]
    congr 1
    clear split
    induction count generalizing entries with
    | zero => rfl
    | succ count rest =>
        cases entries with
        | nil => rfl
        | cons entry entries =>
            have first : assignment.var? entry.1 = none := stays 0 (Nat.zero_lt_succ _)
            rw [List.filter_cons_of_pos (by simp [first]), List.drop_succ_cons, List.drop_succ_cons]
            apply rest
            intro place bound
            simpa [tags] using stays (place + 1) (Nat.succ_lt_succ bound)
  moved := fun entry member _ found => split.moved entry (List.mem_of_mem_drop member) found
  vars := split.vars
  grid := split.grid
  input := split.input

/-- Values in variables are popped in the original program only. -/
theorem drop_moved (split : Split assignment base entries state twin)
    (fresh : assignment.Fresh base) {count : Nat}
    (leaves : ∀ place < count, (assignment.var? (valueAt (tags entries) place)).isSome = true) :
    Split assignment base (entries.drop count) (state.replace count []) twin where
  stack := by simp [State.replace, split.stack, List.map_drop]
  kept := by
    rw [split.kept]
    congr 1
    clear split
    induction count generalizing entries with
    | zero => rfl
    | succ count rest =>
        cases entries with
        | nil =>
            have first := leaves 0 (Nat.zero_lt_succ _)
            simp [tags, fresh.underflow] at first
        | cons entry entries =>
            have first : (assignment.var? entry.1).isSome = true := leaves 0 (Nat.zero_lt_succ _)
            rw [List.filter_cons_of_neg (by simpa [Option.isSome_iff_ne_none] using first),
              List.drop_succ_cons]
            apply rest
            intro place bound
            simpa [tags] using leaves (place + 1) (Nat.succ_lt_succ bound)
  moved := fun entry member _ found => split.moved entry (List.mem_of_mem_drop member) found
  vars := split.vars
  grid := split.grid
  input := split.input

theorem push_kept (split : Split assignment base entries state twin) {tag : Value}
    (stays : assignment.var? tag = none) (word : Word) :
    Split assignment base ((tag, word) :: entries) (state.replace 0 [word])
      (twin.replace 0 [word]) where
  stack := by simp [State.replace, split.stack]
  kept := by
    rw [List.filter_cons_of_pos (by simp [stays])]
    simp [State.replace, split.kept]
  moved := by
    intro entry member var found
    rcases List.mem_cons.mp member with rfl | member
    · rw [stays] at found
      cases found
    · exact split.moved entry member found
  vars := split.vars
  grid := split.grid
  input := split.input

theorem push_moved (split : Split assignment base entries state twin) {tag : Value} {var : VarId}
    {word : Word} (leaves : assignment.var? tag = some var) (holds : twin.vars var = word) :
    Split assignment base ((tag, word) :: entries) (state.replace 0 [word]) twin where
  stack := by simp [State.replace, split.stack]
  kept := by
    rw [List.filter_cons_of_neg (by simp [leaves]), split.kept]
  moved := by
    intro entry member other found
    rcases List.mem_cons.mp member with rfl | member
    · rw [leaves] at found
      exact Option.some.inj found ▸ holds
    · exact split.moved entry member found
  vars := split.vars
  grid := split.grid
  input := split.input

/-- A variable of the original program is assigned in both programs. -/
theorem assign_own (split : Split assignment base entries state twin)
    (fresh : assignment.Fresh base) {var : VarId} (own : var.index < base) (word : Word) :
    Split assignment base entries (state.assign var word) (twin.assign var word) where
  stack := split.stack
  kept := split.kept
  moved := by
    intro entry member other found
    have apart : other ≠ var := by
      rintro rfl
      have above := fresh.base_le found
      omega
    simpa only [State.assign, if_neg apart] using split.moved entry member found
  vars := by
    intro other otherOwn
    simp only [State.assign, split.vars other otherOwn]
  grid := split.grid
  input := split.input

/-- The variable of a value is assigned while the value is not on the stack. -/
theorem assign_moved (split : Split assignment base entries state twin)
    (fresh : assignment.Fresh base) {tag : Value} {var : VarId}
    (leaves : assignment.var? tag = some var)
    (absent : ∀ entry ∈ entries, assignment.var? entry.1 ≠ some var) (word : Word) :
    Split assignment base entries state (twin.assign var word) where
  stack := split.stack
  kept := split.kept
  moved := by
    intro entry member other found
    have apart : other ≠ var := by
      rintro rfl
      exact absent entry member found
    simpa only [State.assign, if_neg apart] using split.moved entry member found
  vars := by
    intro other own
    have apart : other ≠ var := by
      rintro rfl
      have above := fresh.base_le leaves
      omega
    simpa only [State.assign, if_neg apart] using split.vars other own
  grid := split.grid
  input := split.input

theorem store (split : Split assignment base entries state twin) (x y word : Word) :
    Split assignment base entries (state.store x y word) (twin.store x y word) where
  stack := split.stack
  kept := split.kept
  moved := split.moved
  vars := split.vars
  grid := by simp only [State.store, split.grid]
  input := split.input

theorem skipInput (split : Split assignment base entries state twin) :
    Split assignment base entries state.skipInput twin.skipInput where
  stack := split.stack
  kept := split.kept
  moved := split.moved
  vars := split.vars
  grid := split.grid
  input := by simp only [State.skipInput, split.input]

end Split

end StackFlow.Promotion
