import StackFlow.Vertex

/-!
# Errors

What can go wrong with a graph. None of these is a fault of the program that is compiled: they mean
that whoever built the graph broke its rules, or that a rule of the optimizer did.
-/

namespace StackFlow

/-- Why a rule may not put its replacement into the graph. -/
inductive SpliceFault where
  /-- A builder of the rule refused the chain that was matched. -/
  | refused
  /-- A vertex that branches stands before the end of the replacement. -/
  | branchInside
  /-- The last vertex of the replacement cannot take over the exits of the chain. -/
  | exits (kind : String) (carried found : Nat)
deriving DecidableEq

namespace SpliceFault

/-- The wording of the fault. -/
def message : SpliceFault → String
  | .refused => "replacement builder rejected the matched chain"
  | .branchInside => "branching vertex inside replacement chain"
  | .exits kind carried found =>
    kind ++ " can carry " ++ carried.repr ++ " exit(s), matched chain has " ++ found.repr

end SpliceFault

/-- Why an op cannot be moved off the stack. Each names the op. -/
inductive PromotionFault where
  /-- Some operands are variables and some are on the stack. -/
  | mixedOperands (op : String)
  /-- The copy is a variable and the value copied is not, or the other way round. -/
  | mixedCopy
  /-- The result is a variable but the operands are on the stack. -/
  | resultOnly (op : String)
  /-- The operands are variables but the result is on the stack. -/
  | operandsOnly (op : String)
deriving DecidableEq

namespace PromotionFault

/-- The wording of the fault. -/
def message : PromotionFault → String
  | .mixedOperands op => op ++ " has operands both on the stack and in variables"
  | .mixedCopy => "Dup copy and source disagree on promotion"
  | .resultOnly op => op ++ " result promoted without its operands"
  | .operandsOnly op => op ++ " operands promoted without its result"

end PromotionFault

/-- A broken rule of the graph or of a pass over it. -/
inductive GraphError where
  /-- The handle refers to no vertex. -/
  | unknownVertex (id : VertexId)
  /-- The graph has no root. -/
  | missingRoot
  /-- The edges between two vertices are not the same seen from both sides. -/
  | asymmetricEdges (vertex neighbour : VertexId)
  /-- The root does not reach the vertex. -/
  | unreachable (id : VertexId)
  /-- Two vertices have no predecessor. -/
  | multipleRoots (first second : VertexId)
  /-- The vertex has a number of children that its kind does not allow. -/
  | childCount (vertex : VertexId) (kind : String) (expected found : Nat)
  /-- A rule built a replacement that does not fit. -/
  | invalidSplice (rule : String) (fault : SpliceFault)
  /-- Values that share an op were promoted only in part. -/
  | partialPromotion (vertex : VertexId) (fault : PromotionFault)
  /-- The memory image does not have one cell for each cell of the grid. -/
  | memorySize (cells width height : Nat)
  /-- A decision whose edges are to change places has fewer than two. -/
  | shortDecision (vertex : VertexId)
deriving DecidableEq

namespace GraphError

/-- The wording of the error. -/
def message : GraphError → String
  | .unknownVertex id => "Unknown vertex: " ++ id.text
  | .missingRoot => "Graph has no root vertex"
  | .asymmetricEdges vertex neighbour =>
    "Parent/child lists of " ++ vertex.text ++ " and " ++ neighbour.text ++ " are not symmetric"
  | .unreachable id => "Vertex " ++ id.text ++ " is not reachable from the root"
  | .multipleRoots first second =>
    "Vertices " ++ first.text ++ " and " ++ second.text ++ " both have no parents"
  | .childCount vertex kind expected found =>
    kind ++ " vertex " ++ vertex.text ++ " must have " ++ expected.repr ++ " children, got " ++
      found.repr
  | .invalidSplice rule fault =>
    "Rule '" ++ rule ++ "' produced an invalid splice: " ++ fault.message
  | .partialPromotion vertex fault =>
    "Cannot unstackify vertex " ++ vertex.text ++ ": " ++ fault.message
  | .memorySize cells width height =>
    "Invalid optimizer configuration: memory image has " ++ cells.repr ++ " cells, grid is " ++
      width.repr ++ "x" ++ height.repr
  | .shortDecision vertex => "Decision " ++ vertex.text ++ " has fewer than two children"

end GraphError

end StackFlow
