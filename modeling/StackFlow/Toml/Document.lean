import StackFlow.Toml.Scalar

/-!
# TOML documents

A document is read line by line. Each line holds a pair, a header or nothing; the lines together
make up one table.
-/

namespace StackFlow.Toml

namespace Reader

/-- Items with commas between them, and blanks, line ends and comments around them. A comma may
follow the last. -/
def items (value : Reader Value) : Reader (List Value) := do
  let item := do filler; let value ← value; filler; return value
  match ← maybe item with
  | none =>
    filler
    return []
  | some first =>
    let more ← many do char ','; item
    let _ ← maybe (char ',')
    filler
    return first :: more

/-- A key and its value. -/
def pair (value : Reader Value) : Reader (List String × Value) := do
  let path ← key
  char '='
  blanks
  return (path, ← value)

/-- Adds a pair to a table. -/
def addPair? (entries : Entries) (path : List String) (value : Value) : Option Entries :=
  match path.getLast? with
  | some last => Entries.addPair last value path.dropLast entries
  | none => none

/-- Pairs with commas between them, on one line, as a table. -/
def inlineEntries (value : Reader Value) : Reader Entries := do
  let item := do let pair ← pair value; blanks; return pair
  let pairs ← do
    match ← maybe item with
    | none => pure []
    | some first => pure (first :: (← many do char ','; item))
  blanks
  match pairs.foldlM (fun entries (path, value) => addPair? entries path value) [] with
  | some entries => return entries
  | none => failure

/-- A value in which arrays and tables are nested at most `depth` deep. -/
def value : Nat → Reader Value
  | 0 => scalar
  | depth + 1 =>
    scalar
      <|> (do
        char '['
        let items ← items (value depth)
        char ']'
        return .array items)
      <|> (do
        char '\x7b'
        let entries ← inlineEntries (value depth)
        char '\x7d'
        return .table .inline entries)

/-- What a line says. -/
inductive Line where
  | empty
  | pair (path : List String) (value : Value)
  | header (path : List String)
  | elementHeader (path : List String)

/-- One line, up to its end. Values may go on over more lines. -/
def line : Reader Line := do
  blanks
  let content ←
    (do
      keyword "[["
      let path ← key
      keyword "]]"
      return Line.elementHeader path)
    <|> (do
      char '['
      let path ← key
      char ']'
      return Line.header path)
    <|> (do
      let (path, value) ← pair (value 79)
      return Line.pair path value)
    <|> pure Line.empty
  lineEnd
  return content

/-- The lines of a text that holds nothing else. A byte order mark at the start does not count. -/
def lines : Reader (List Line) := do
  let _ ← maybe (char '\ufeff')
  let lines ← many do
    if (← get).isEmpty then failure
    line
  atEnd
  return lines

end Reader

/-- A document on its way: the entries so far, and the path of the table that pairs are added to. -/
structure Draft where
  entries : Entries := []
  path : List String := []

/-- Changes the table with the given path. -/
def Draft.openAt (draft : Draft) (path : List String) (change : String → Entries → Option Entries) :
    Option Draft := do
  let last ← path.getLast?
  let entries ← Entries.changeAt (change last) path.dropLast draft.entries
  return ⟨entries, path⟩

/-- Adds what one line says. -/
def Draft.add (draft : Draft) : Reader.Line → Option Draft
  | .empty => some draft
  | .header path => draft.openAt path Entries.openTable
  | .elementHeader path => draft.openAt path Entries.openElement
  | .pair path value => do
    let entries ← Entries.changeAt (Reader.addPair? · path value) draft.path draft.entries
    return { draft with entries := entries }

/-- The table that a document describes; `none` if the text is no document. -/
def parse? (text : String) : Option Entries := do
  let (lines, _) ← Reader.lines text.toList
  let draft ← lines.foldlM Draft.add {}
  return draft.entries

end StackFlow.Toml
