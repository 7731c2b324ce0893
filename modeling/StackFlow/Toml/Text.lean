import StackFlow.Toml.Reader

/-!
# Strings and keys

Strings come between quotes or apostrophes, with escapes only between quotes, and between three of
either they may span lines.
-/

namespace StackFlow.Toml

namespace Reader

/-- A hexadecimal digit. -/
def isHexDigit (char : Char) : Bool :=
  char.isDigit || ('a' ≤ char && char ≤ 'f') || ('A' ≤ char && char ≤ 'F')

/-- A character by its code in so many hexadecimal digits. -/
def codePoint (digits : Nat) : Reader Char := do
  let code := numeral 16 (← takeExactly isHexDigit digits)
  if code.isValidChar then return Char.ofNat code else failure

/-- What may follow a backslash. -/
def escape : Reader Char := do
  match ← satisfy fun _ => true with
  | 'b' => return '\x08'
  | 't' => return '\t'
  | 'n' => return '\n'
  | 'f' => return '\x0c'
  | 'r' => return '\r'
  | '"' => return '"'
  | '\\' => return '\\'
  | 'u' => codePoint 4
  | 'U' => codePoint 8
  | _ => failure

/-- One character of a string between quotes. -/
def basicChar : Reader Char :=
  (do char '\\'; escape) <|> satisfy fun char => isPlain char && char ≠ '"' && char ≠ '\\'

/-- A string between quotes on one line. -/
def basicString : Reader String := do
  char '"'
  let content ← many basicChar
  char '"'
  return String.ofList content

/-- A string between apostrophes on one line. -/
def literalString : Reader String := do
  char '\''
  let content ← takeWhile fun char => isPlain char && char ≠ '\''
  char '\''
  return String.ofList content

/-- One or two delimiters inside a string that three delimiters end. -/
def innerDelimiters (delimiter : Char) : Reader (List Char) :=
  let other := ahead (satisfy (· ≠ delimiter))
  (do char delimiter; char delimiter; other; return [delimiter, delimiter])
    <|> (do char delimiter; other; return [delimiter])

/-- The three delimiters that end a string, with up to two more in front that belong to it. -/
def closing (delimiter : Char) : Reader (List Char) := do
  let delimiters ← takeWhile (· = delimiter)
  let extra := min (delimiters.length - 3) 2
  if delimiters.length < 3 then failure
  modify (List.replicate (delimiters.length - 3 - extra) delimiter ++ ·)
  return List.replicate extra delimiter

/-- A backslash at the end of a line takes all blanks and line ends that follow with it. -/
def continuation : Reader Unit := do
  char '\\'
  blanks
  newline
  let _ ← many ((do let _ ← takeSome isBlank) <|> newline)

/-- A part of a string between three quotes. -/
def multilineBasicPart : Reader (List Char) :=
  (do continuation; return [])
    <|> (do newline; return ['\n'])
    <|> innerDelimiters '"'
    <|> (do return [← basicChar])

/-- A string between three quotes. A line end right at its start does not count. -/
def multilineBasicString : Reader String := do
  keyword "\"\"\""
  let _ ← maybe newline
  let parts ← many multilineBasicPart
  return String.ofList (parts.flatten ++ (← closing '"'))

/-- A part of a string between three apostrophes. -/
def multilineLiteralPart : Reader (List Char) :=
  (do newline; return ['\n'])
    <|> innerDelimiters '\''
    <|> (do return [← satisfy fun char => isPlain char && char ≠ '\''])

/-- A string between three apostrophes. A line end right at its start does not count. -/
def multilineLiteralString : Reader String := do
  keyword "'''"
  let _ ← maybe newline
  let parts ← many multilineLiteralPart
  return String.ofList (parts.flatten ++ (← closing '\''))

/-- A string of any kind. -/
def string : Reader String :=
  multilineBasicString <|> basicString <|> multilineLiteralString <|> literalString

/-- One part of a key. -/
def keyPart : Reader String :=
  basicString <|> literalString
    <|> (do
      return String.ofList (← takeSome fun char => char.isAlphanum || char = '_' || char = '-'))

/-- A key, with dots between its parts and blanks around them. A key has fewer than eighty parts. -/
def key : Reader (List String) := do
  let part := do blanks; let name ← keyPart; blanks; return name
  let first ← part
  let more ← many do char '.'; part
  if more.length + 1 < 80 then return first :: more else failure

end Reader

end StackFlow.Toml
