/-!
# Reading characters

A reader takes characters from the front of a text and yields what they stand for, or fails. After a
failure another reader can be tried at the same place.
-/

namespace StackFlow.Toml

/-- Reads a value from the front of a text. -/
abbrev Reader := StateT (List Char) Option

namespace Reader

/-- Takes one character with the property. -/
def satisfy (property : Char → Bool) : Reader Char := fun input =>
  match input with
  | char :: rest => if property char then some (char, rest) else none
  | [] => none

/-- Takes the given character. -/
def char (expected : Char) : Reader Unit := do
  let _ ← satisfy (· = expected)

/-- Takes the given characters. -/
def keyword (expected : String) : Reader Unit :=
  expected.toList.forM char

/-- Takes characters as long as they have the property. -/
def takeWhile (property : Char → Bool) : Reader (List Char) := fun input =>
  some (input.takeWhile property, input.dropWhile property)

/-- Takes at least one character, and more as long as they have the property. -/
def takeSome (property : Char → Bool) : Reader (List Char) := do
  let first ← satisfy property
  return first :: (← takeWhile property)

/-- Takes as many characters with the property as asked for. -/
def takeExactly (property : Char → Bool) : Nat → Reader (List Char)
  | 0 => pure []
  | count + 1 => do
    let first ← satisfy property
    return first :: (← takeExactly property count)

/-- Nothing is left. -/
def atEnd : Reader Unit := fun input =>
  if input.isEmpty then some ((), input) else none

/-- Looks for something without taking it. -/
def ahead {α : Type} (reader : Reader α) : Reader Unit := fun input =>
  (reader input).map fun _ => ((), input)

/-- Yields `none` where the reader fails. -/
def maybe {α : Type} (reader : Reader α) : Reader (Option α) :=
  (some <$> reader) <|> pure none

/-- Reads as often as possible, at most `limit` times. -/
def upTo {α : Type} (reader : Reader α) : Nat → Reader (List α)
  | 0 => pure []
  | limit + 1 => do
    match ← maybe reader with
    | none => return []
    | some value => return value :: (← upTo reader limit)

/-- Reads as often as possible. Each reading takes at least one character, so the length of the text
is enough. -/
def many {α : Type} (reader : Reader α) : Reader (List α) := do
  upTo reader (← get).length

/-- Space or tab. -/
def isBlank (char : Char) : Bool :=
  char = ' ' || char = '\t'

/-- Spaces and tabs. -/
def blanks : Reader Unit := do
  let _ ← takeWhile isBlank

/-- A line feed, with or without a carriage return in front. -/
def newline : Reader Unit :=
  char '\n' <|> (do char '\r'; char '\n')

/-- A character that may stand in a comment or a string: any but the controls, of which only the tab
may. -/
def isPlain (char : Char) : Bool :=
  char = '\t' || (0x20 ≤ char.toNat && char.toNat ≠ 0x7f)

/-- A comment up to the end of its line. -/
def comment : Reader Unit := do
  char '#'
  let _ ← takeWhile isPlain

/-- What may stand between the items of an array: blanks, line ends and comments. -/
def filler : Reader Unit := do
  let _ ← many ((do let _ ← takeSome isBlank) <|> newline <|> comment)

/-- The end of a line, with blanks and a comment in front. -/
def lineEnd : Reader Unit := do
  blanks
  let _ ← maybe comment
  newline <|> atEnd

/-- The value of a digit in a base up to sixteen. -/
def digitValue (char : Char) : Nat :=
  if char.isDigit then char.toNat - '0'.toNat
  else if char.isLower then char.toNat - 'a'.toNat + 10
  else char.toNat - 'A'.toNat + 10

/-- The number that digits stand for. -/
def numeral (base : Nat) (digits : List Char) : Nat :=
  digits.foldl (fun value digit => value * base + digitValue digit) 0

end Reader

end StackFlow.Toml
