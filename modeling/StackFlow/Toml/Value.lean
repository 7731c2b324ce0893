/-!
# TOML values

The values of a TOML document, and how pairs and headers add to its tables. A table remembers how it
came about, because that decides what may still be added to it.
-/

namespace StackFlow.Toml

/-- How a table came about. -/
inductive Origin where
  /-- Written between braces. Nothing can be added. -/
  | inline
  /-- Named by a header of its own. -/
  | header
  /-- Named only as a part of the path of another header. -/
  | implied
  /-- Named as a part of a dotted key. -/
  | dotted
deriving DecidableEq

/-- A value of a document. -/
inductive Value where
  | text (content : String)
  | integer (value : Int)
  /-- A number with a fraction or an exponent, as it is written. -/
  | float (literal : String)
  | boolean (value : Bool)
  /-- A date, a time or both, as written. -/
  | dateTime (literal : String)
  | array (items : List Value)
  | table (origin : Origin) (entries : List (String × Value))
  /-- The tables of all headers in double brackets with one name. -/
  | tables (elements : List (List (String × Value)))

/-- The entries of a table, in the order in which they were made. -/
abbrev Entries := List (String × Value)

namespace Entries

/-- Changes the value of a key. -/
def replace (entries : Entries) (key : String) (value : Value) : Entries :=
  entries.map fun (other, old) => if other = key then (other, value) else (other, old)

/-- Adds a new key; fails if it is there already. -/
def addNew (entries : Entries) (key : String) (value : Value) : Option Entries :=
  if (entries.lookup key).isSome then none else some (entries ++ [(key, value)])

/-- Adds a value under a dotted key. Tables on the way are made as they are needed. Those that are
there must not have a header of their own, and the last of them must come from a dotted key. -/
def addPair (key : String) (value : Value) : List String → Entries → Option Entries
  | [], entries => entries.addNew key value
  | part :: path, entries =>
    match entries.lookup part with
    | none => do
      let inner ← addPair key value path []
      return entries ++ [(part, .table .dotted inner)]
    | some (.table .dotted inner) => do
      return entries.replace part (.table .dotted (← addPair key value path inner))
    | some (.table .implied inner) =>
      if path.isEmpty then none
      else do return entries.replace part (.table .implied (← addPair key value path inner))
    | some (.tables elements) =>
      match path, elements.getLast? with
      | _ :: _, some last => do
        return entries.replace part (.tables (elements.dropLast ++ [← addPair key value path last]))
      | _, _ => none
    | some _ => none

/-- Changes the table at the path of a header. Tables on the way are made as they are needed; of
several tables with one name the last one counts. -/
def changeAt (change : Entries → Option Entries) : List String → Entries → Option Entries
  | [], entries => change entries
  | part :: path, entries =>
    match entries.lookup part with
    | none => do
      return entries ++ [(part, .table .implied (← changeAt change path []))]
    | some (.table origin inner) =>
      if origin = .inline then none
      else do return entries.replace part (.table origin (← changeAt change path inner))
    | some (.tables elements) =>
      match elements.getLast? with
      | some last => do
        return entries.replace part (.tables (elements.dropLast ++ [← changeAt change path last]))
      | none => none
    | some _ => none

/-- Makes a table for a header. It may have been implied before, but not more. -/
def openTable (key : String) (entries : Entries) : Option Entries :=
  match entries.lookup key with
  | none => some (entries ++ [(key, .table .header [])])
  | some (.table .implied inner) => some (entries.replace key (.table .header inner))
  | some _ => none

/-- Makes one more table for a header in double brackets. -/
def openElement (key : String) (entries : Entries) : Option Entries :=
  match entries.lookup key with
  | none => some (entries ++ [(key, .tables [[]])])
  | some (.tables elements) => some (entries.replace key (.tables (elements ++ [[]])))
  | some _ => none

end Entries

end StackFlow.Toml
