import Mathlib
import StackFlow.Dialect.Listing

/-!
# Listings are unambiguous

An expression can be read back from the way a listing writes it. The first character
tells which construct is written, where all numbers count as one construct. A number
goes on as long as there are digits, and what a listing writes behind an operand never
begins with a digit. An operator that is the beginning of another one differs from it
in an equals sign, and no operand begins with that.

So an expression can be taken off the front of a longer text in one way only, which is
what the induction over expressions proves.
-/

namespace StackFlow

/-- A number that stands before the text ends there. -/
def EndsNumber (text : List Char) : Prop :=
  ∀ char ∈ text.head?, char.isDigit = false

theorem endsNumber_nil : EndsNumber [] := by
  simp [EndsNumber]

theorem endsNumber_cons {char : Char} (mark : char.isDigit = false) (text : List Char) :
    EndsNumber (char :: text) := by
  simpa [EndsNumber] using mark

section Numbers

variable {rest tail : List Char}

theorem isDigit_of_mem_repr {number : Nat} : ∀ char ∈ number.repr.toList, char.isDigit = true := by
  intro char member
  rw [Nat.toList_repr] at member
  exact Nat.isDigit_of_mem_toDigits (by omega) le_rfl member

theorem takeWhile_repr (number : Nat) (ends : EndsNumber rest) :
    (number.repr.toList ++ rest).takeWhile Char.isDigit = number.repr.toList := by
  have stops : rest.takeWhile Char.isDigit = [] := by
    cases rest with
    | nil => rfl
    | cons char rest => simp [ends char rfl]
  rw [List.takeWhile_append_of_pos isDigit_of_mem_repr, stops, List.append_nil]

theorem repr_append_inj {number other : Nat} (ends : EndsNumber rest) (otherEnds : EndsNumber tail)
    (same : number.repr.toList ++ rest = other.repr.toList ++ tail) :
    number = other ∧ rest = tail := by
  have digits : number.repr.toList = other.repr.toList := by
    rw [← takeWhile_repr number ends, same, takeWhile_repr other otherEnds]
  constructor
  · exact Nat.repr_inj.mp (String.toList_inj.mp digits)
  · rw [digits] at same
    exact List.append_cancel_left same

theorem exists_digit_repr (number : Nat) :
    ∃ digit digits, number.repr.toList = digit :: digits ∧ digit.isDigit = true := by
  cases digits : number.repr.toList with
  | nil =>
      rw [Nat.toList_repr] at digits
      exact absurd digits Nat.toDigits_ne_nil
  | cons digit rest =>
      have member : digit ∈ number.repr.toList := by
        rw [digits]
        exact List.mem_cons_self
      exact ⟨digit, rest, rfl, isDigit_of_mem_repr digit member⟩

theorem sign_append_ne_repr (number : Nat) : '-' :: tail ≠ number.repr.toList ++ rest := by
  rcases exists_digit_repr number with ⟨digit, digits, found, isDigit⟩
  intro same
  rw [found] at same
  rw [← (List.cons.inj same).1] at isDigit
  exact absurd isDigit (by decide)

theorem Word.decimal_append_inj {word other : Word} (ends : EndsNumber rest)
    (otherEnds : EndsNumber tail)
    (same : word.decimal.toList ++ rest = other.decimal.toList ++ tail) :
    word = other ∧ rest = tail := by
  unfold decimal at same
  cases value : word.toInt with
  | ofNat magnitude =>
      cases otherValue : other.toInt with
      | ofNat otherMagnitude =>
          simp only [value, otherValue] at same
          rcases repr_append_inj ends otherEnds same with ⟨rfl, tails⟩
          exact ⟨Int64.toInt_inj.mp (value.trans otherValue.symm), tails⟩
      | negSucc below =>
          simp only [value, otherValue, String.toList_append] at same
          exact absurd same.symm (sign_append_ne_repr magnitude)
  | negSucc below =>
      cases otherValue : other.toInt with
      | ofNat otherMagnitude =>
          simp only [value, otherValue, String.toList_append] at same
          exact absurd same (sign_append_ne_repr otherMagnitude)
      | negSucc otherBelow =>
          simp only [value, otherValue, String.toList_append, List.append_assoc] at same
          rcases repr_append_inj ends otherEnds (List.append_cancel_left same) with
            ⟨sameBelow, tails⟩
          obtain rfl : below = otherBelow := by omega
          exact ⟨Int64.toInt_inj.mp (value.trans otherValue.symm), tails⟩

end Numbers

namespace Operator

/-- The first character of the symbol. -/
def sign : Operator → Char
  | .add => '+'
  | .sub => '-'
  | .mul => '*'
  | .div => '/'
  | .mod => '%'
  | .gt | .ge => '>'
  | .lt | .le => '<'
  | .eq => '='
  | .ne => '!'

/-- The symbol goes on with an equals sign. -/
def hasEquals : Operator → Bool
  | .ge | .le | .eq | .ne => true
  | .add | .sub | .mul | .div | .mod | .gt | .lt => false

theorem toList_symbol (op : Operator) :
    op.symbol.toList = op.sign :: if op.hasEquals then ['='] else [] := by
  cases op <;> simp [symbol, sign, hasEquals]

theorem eq_of_sign_eq {op other : Operator} (signs : op.sign = other.sign)
    (equals : op.hasEquals = other.hasEquals) : op = other := by
  cases op <;> cases other <;> simp_all [sign, hasEquals]

theorem symbol_append_inj {op other : Operator} {rest tail : List Char}
    (unequal : rest.head? ≠ some '=') (otherUnequal : tail.head? ≠ some '=')
    (same : op.symbol.toList ++ rest = other.symbol.toList ++ tail) : op = other ∧ rest = tail := by
  simp only [toList_symbol, List.cons_append, List.cons.injEq] at same
  rcases same with ⟨signs, same⟩
  cases equals : op.hasEquals <;> cases otherEquals : other.hasEquals <;>
    simp only [equals, otherEquals, if_true, Bool.false_eq_true, if_false, List.nil_append,
      List.cons_append] at same
  · exact ⟨eq_of_sign_eq signs (equals.trans otherEquals.symm), same⟩
  -- `>` against `>=`: the operand behind the shorter symbol would have to begin with the equals
  -- sign.
  · simp [same] at unequal
  · simp [← same] at otherUnequal
  · exact ⟨eq_of_sign_eq signs (equals.trans otherEquals.symm), (List.cons.inj same).2⟩

theorem endsNumber_symbol (op : Operator) (rest : List Char) :
    EndsNumber (op.symbol.toList ++ rest) := by
  rw [toList_symbol]
  apply endsNumber_cons
  cases op <;> decide

end Operator

namespace Expr

/-- What a first character tells of the construct: the character itself, or `none` for a number. -/
def opened (first : Char) : Option Char :=
  if first.isDigit = true ∨ first = '-' then none else some first

/-- The character with which the text of an expression begins; `none` for a number. -/
def opening : Expr → Option Char
  | .const _ => none
  | .var _ => some 'x'
  | .binary _ _ _ => some '('
  | .not _ => some '!'
  | .boolCast _ => some 'b'
  | .peek => some 'p'
  | .memory _ _ => some 'g'

section Texts

variable (op : Operator) (value : Word) (id : VarId) (expr other : Expr)

theorem toList_text_const : (const value).text.toList = value.decimal.toList := rfl

theorem toList_text_var : (var id).text.toList = 'x' :: id.index.repr.toList := by
  change ("x" ++ id.index.repr).toList = _
  rw [String.toList_append]
  rfl

theorem toList_text_binary :
    (binary op expr other).text.toList =
      '(' :: (expr.text.toList ++ (op.symbol.toList ++ (other.text.toList ++ [')']))) := by
  change ("(" ++ expr.text ++ op.symbol ++ other.text ++ ")").toList = _
  simp

theorem toList_text_not : (not expr).text.toList = '!' :: expr.text.toList := by
  change ("!" ++ expr.text).toList = _
  simp

theorem toList_text_boolCast :
    (boolCast expr).text.toList = 'b' :: 'o' :: 'o' :: 'l' :: '(' ::
      (expr.text.toList ++ [')']) := by
  change ("bool(" ++ expr.text ++ ")").toList = _
  simp

theorem toList_text_peek : peek.text.toList = ['p', 'e', 'e', 'k', '(', ')'] := rfl

theorem toList_text_memory :
    (memory expr other).text.toList =
      'g' :: 'r' :: '[' :: (expr.text.toList ++ (',' :: (other.text.toList ++ [']']))) := by
  change ("gr[" ++ expr.text ++ "," ++ other.text ++ "]").toList = _
  simp

end Texts

theorem exists_opening (expr : Expr) :
    ∃ first rest, expr.text.toList = first :: rest ∧ opened first = expr.opening := by
  cases expr with
  | const value =>
      rw [toList_text_const, Word.decimal]
      cases value.toInt with
      | ofNat magnitude =>
          rcases exists_digit_repr magnitude with ⟨digit, digits, found, isDigit⟩
          exact ⟨digit, digits, found, by simp [opened, opening, isDigit]⟩
      | negSucc below => exact ⟨'-', _, String.toList_append, rfl⟩
  | var id => exact ⟨'x', _, toList_text_var id, rfl⟩
  | binary op lhs rhs => exact ⟨'(', _, toList_text_binary op lhs rhs, rfl⟩
  | not operand => exact ⟨'!', _, toList_text_not operand, rfl⟩
  | boolCast operand => exact ⟨'b', _, toList_text_boolCast operand, rfl⟩
  | peek => exact ⟨'p', _, toList_text_peek, rfl⟩
  | memory x y => exact ⟨'g', _, toList_text_memory x y, rfl⟩

theorem opening_eq_of_append_eq {expr other : Expr} {rest tail : List Char}
    (same : expr.text.toList ++ rest = other.text.toList ++ tail) :
    expr.opening = other.opening := by
  rcases exists_opening expr with ⟨first, others, begins, opens⟩
  rcases exists_opening other with ⟨otherFirst, otherOthers, otherBegins, otherOpens⟩
  rw [begins, otherBegins] at same
  rw [← opens, ← otherOpens, (List.cons.inj same).1]

theorem head?_text_ne_equals (expr : Expr) (rest : List Char) :
    (expr.text.toList ++ rest).head? ≠ some '=' := by
  rcases exists_opening expr with ⟨first, others, begins, opens⟩
  rw [begins]
  intro found
  obtain rfl : first = '=' := by simpa using found
  cases expr <;> simp [opened, opening] at opens

/-- The expression can be taken off the front of a text in one way only, where what follows begins
with no digit. -/
def Readable (expr : Expr) : Prop :=
  ∀ (other : Expr) (rest tail : List Char), EndsNumber rest → EndsNumber tail →
    expr.text.toList ++ rest = other.text.toList ++ tail → expr = other ∧ rest = tail

section Readable

variable {expr other : Expr} {rest tail : List Char}

/-- An operand ends before the mark that is written behind it. -/
theorem Readable.marked (readable : expr.Readable) {mark : Char} (isMark : mark.isDigit = false)
    (same : expr.text.toList ++ mark :: rest = other.text.toList ++ mark :: tail) :
    expr = other ∧ rest = tail := by
  have ends : ∀ text, EndsNumber (mark :: text) := endsNumber_cons isMark
  rcases readable other _ _ (ends rest) (ends tail) same with ⟨alike, tails⟩
  exact ⟨alike, (List.cons.inj tails).2⟩

theorem readable_const (value : Word) : (const value).Readable := by
  intro other rest tail ends otherEnds same
  cases other with
  | const otherValue =>
      simp only [toList_text_const] at same
      rcases Word.decimal_append_inj ends otherEnds same with ⟨rfl, tails⟩
      exact ⟨rfl, tails⟩
  | _ => exact absurd (opening_eq_of_append_eq same) (by simp [opening])

theorem readable_var (id : VarId) : (var id).Readable := by
  intro other rest tail ends otherEnds same
  cases other with
  | var otherId =>
      simp only [toList_text_var, List.cons_append, List.cons.injEq, true_and] at same
      rcases repr_append_inj ends otherEnds same with ⟨index, tails⟩
      exact ⟨congrArg (fun index => var ⟨index⟩) index, tails⟩
  | _ => exact absurd (opening_eq_of_append_eq same) (by simp [opening])

theorem readable_peek : peek.Readable := by
  intro other rest tail ends otherEnds same
  cases other with
  | peek => exact ⟨rfl, List.append_cancel_left same⟩
  | _ => exact absurd (opening_eq_of_append_eq same) (by simp [opening])

theorem Readable.binary {op : Operator} {lhs rhs : Expr} (left : lhs.Readable)
    (right : rhs.Readable) : (binary op lhs rhs).Readable := by
  intro other rest tail ends otherEnds same
  cases other with
  | binary otherOp otherLhs otherRhs =>
      simp only [toList_text_binary, List.cons_append, List.append_assoc, List.nil_append,
        List.cons.injEq, true_and] at same
      rcases left otherLhs _ _ (op.endsNumber_symbol _) (otherOp.endsNumber_symbol _) same with
        ⟨rfl, afterLeft⟩
      have unequal := rhs.head?_text_ne_equals (')' :: rest)
      have otherUnequal := otherRhs.head?_text_ne_equals (')' :: tail)
      rcases Operator.symbol_append_inj unequal otherUnequal afterLeft with ⟨rfl, afterSymbol⟩
      rcases right.marked (by decide) afterSymbol with ⟨rfl, tails⟩
      exact ⟨rfl, tails⟩
  | _ => exact absurd (opening_eq_of_append_eq same) (by simp [opening])

theorem Readable.not {operand : Expr} (inner : operand.Readable) : (not operand).Readable := by
  intro other rest tail ends otherEnds same
  cases other with
  | not otherOperand =>
      simp only [toList_text_not, List.cons_append, List.cons.injEq, true_and] at same
      rcases inner otherOperand _ _ ends otherEnds same with ⟨rfl, tails⟩
      exact ⟨rfl, tails⟩
  | _ => exact absurd (opening_eq_of_append_eq same) (by simp [opening])

theorem Readable.boolCast {operand : Expr} (inner : operand.Readable) :
    (boolCast operand).Readable := by
  intro other rest tail ends otherEnds same
  cases other with
  | boolCast otherOperand =>
      simp only [toList_text_boolCast, List.cons_append, List.append_assoc, List.nil_append,
        List.cons.injEq, true_and] at same
      rcases inner.marked (by decide) same with ⟨rfl, tails⟩
      exact ⟨rfl, tails⟩
  | _ => exact absurd (opening_eq_of_append_eq same) (by simp [opening])

theorem Readable.memory {x y : Expr} (column : x.Readable) (row : y.Readable) :
    (memory x y).Readable := by
  intro other rest tail ends otherEnds same
  cases other with
  | memory otherX otherY =>
      simp only [toList_text_memory, List.cons_append, List.append_assoc, List.nil_append,
        List.cons.injEq, true_and] at same
      rcases column.marked (by decide) same with ⟨rfl, afterComma⟩
      rcases row.marked (by decide) afterComma with ⟨rfl, tails⟩
      exact ⟨rfl, tails⟩
  | _ => exact absurd (opening_eq_of_append_eq same) (by simp [opening])

theorem readable (expr : Expr) : expr.Readable := by
  induction expr with
  | const value => exact readable_const value
  | var id => exact readable_var id
  | binary op lhs rhs left right => exact left.binary right
  | not operand inner => exact inner.not
  | boolCast operand inner => exact inner.boolCast
  | peek => exact readable_peek
  | memory x y column row => exact column.memory row

end Readable

/-- Two expressions that a listing writes alike are the same. -/
theorem text_unambiguous (expr other : Expr) : expr.text = other.text ↔ expr = other := by
  constructor
  · intro alike
    apply And.left
    apply readable expr other [] [] endsNumber_nil endsNumber_nil
    rw [alike]
  · exact congrArg text

end Expr

end StackFlow
