import StackFlow.Optimizer.Config
import StackFlow.Toml.Document

/-!
# Settings from a document

Settings are read from a TOML document. A setting that the document does not name keeps its default,
and keys that name no setting are passed over.
-/

namespace StackFlow.Optimizer.Config

/-- The switch with the given key. -/
def switch? (entries : Toml.Entries) (key : String) (initial : Bool) : Option Bool :=
  match entries.lookup key with
  | none => some initial
  | some (.boolean value) => some value
  | some _ => none

/-- The count with the given key. -/
def count? (entries : Toml.Entries) (key : String) (initial : Nat) : Option Nat :=
  match entries.lookup key with
  | none => some initial
  | some (.integer value) => if 0 ≤ value then some value.toNat else none
  | some _ => none

/-- The settings in the entries of a document; `none` if one of them has the wrong type or is
negative. -/
def ofEntries? (entries : Toml.Entries) : Option Config := do
  return {
    maxIterations := ← count? entries "max_iterations" default.maxIterations
    peephole := ← switch? entries "peephole" default.peephole
    foldBranches := ← switch? entries "fold_branches" default.foldBranches
    promoteCells := ← switch? entries "substitute_memory" default.promoteCells
    promoteValues := ← switch? entries "unstackify" default.promoteValues
    fuseBlocks := ← switch? entries "combine_blocks" default.fuseBlocks
    validate := ← switch? entries "validate" default.validate
    depthLimit := ← count? entries "unstackify_depth_limit" default.depthLimit }

/-- The settings that a document describes. -/
def ofToml? (text : String) : Option Config := do
  ofEntries? (← Toml.parse? text)

end StackFlow.Optimizer.Config
