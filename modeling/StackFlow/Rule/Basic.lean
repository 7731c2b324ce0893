import StackFlow.Graph.Walk

/-!
# Rules and chains

A rule replaces a straight run of vertices by another. It has one test for each vertex of the run,
and one builder for each vertex of the replacement. A run of vertices that passes the tests is a
chain: every vertex but the last has exactly one child, which is the next one.
-/

namespace StackFlow

/-- A test for one vertex of a chain. -/
abbrev Matcher := Vertex → Bool

/-- Builds one vertex of a replacement from the vertices of the chain and all their positions;
`none` refuses the chain. -/
abbrev Builder := List Node → List Position → Option Node

/-- A rule that replaces chains. -/
structure Rule where
  name : String
  /-- The tests, from the first vertex of the chain to the last. -/
  matchers : List Matcher
  /-- The builders, from the first vertex of the replacement to the last. -/
  builders : List Builder
  /-- The chain may end in a vertex with several children. -/
  allowsBranch : Bool := false
  /-- The end of a chain that other vertices run into may be copied. -/
  extracts : Bool := true

namespace Rule

/-- The shape of the rule on one line. -/
def summary (rule : Rule) : String :=
  let flag (value : Bool) := if value then "true" else "false"
  "ModRule \x7b name: \"" ++ rule.name ++ "\", matchers: " ++ rule.matchers.length.repr ++
    ", replacers: " ++ rule.builders.length.repr ++ ", allow_split_exit: " ++
    flag rule.allowsBranch ++ ", extract: " ++ flag rule.extracts ++ " \x7d"

end Rule

/-- A vertex of a chain with its handle. -/
structure Link where
  id : VertexId
  vertex : Vertex
deriving DecidableEq

/-- A run of vertices. -/
structure Chain where
  head : Link
  rest : List Link
deriving DecidableEq

namespace Chain

/-- All vertices of the chain. -/
def links (chain : Chain) : List Link :=
  chain.head :: chain.rest

/-- The last vertex of the chain. -/
def last (chain : Chain) : Link :=
  chain.rest.getLastD chain.head

/-- The handles of the chain. -/
def ids (chain : Chain) : List VertexId :=
  chain.links.map Link.id

/-- The vertices of the chain without their edges. -/
def nodes (chain : Chain) : List Node :=
  chain.links.map (·.vertex.toNode)

/-- The positions of all vertices of the chain. -/
def positions (chain : Chain) : List Position :=
  chain.nodes.foldl (fun known node => Position.merge known node.positions) []

/-- Where the chain leads. -/
def exits (chain : Chain) : List VertexId :=
  chain.last.vertex.children

/-- The vertices of the chain up to the first, after the head, that is not entered by a single
edge. -/
def privateIds (chain : Chain) : List VertexId :=
  chain.head.id :: (chain.rest.takeWhile (·.vertex.parents.length = 1)).map Link.id

/-- The end of the chain from the first vertex, after the head, that is not entered by a single
edge. -/
def shared (chain : Chain) : List Link :=
  chain.rest.dropWhile (·.vertex.parents.length = 1)

end Chain

namespace Graph

/-- Follows the only child of a vertex as long as the tests are passed. -/
def follow? (graph : Graph) :
    List Matcher → List VertexId → Vertex → Except GraphError (Option (List Link))
  | [], _, _ => .ok (some [])
  | matcher :: matchers, passed, current =>
    match current.kind.isSplit, current.children with
    | false, [next] =>
      if next ∈ passed then .ok none
      else do
        let vertex ← graph.vertex next
        if matcher vertex then
          return (← graph.follow? matchers (next :: passed) vertex).map (⟨next, vertex⟩ :: ·)
        else
          return none
    | _, _ => .ok none

/-- The chain that starts at a vertex and passes the tests. -/
def chain? (graph : Graph) (matchers : List Matcher) (head : VertexId) :
    Except GraphError (Option Chain) :=
  match matchers, graph.vertex? head with
  | matcher :: matchers, some vertex =>
    if matcher vertex then do
      return (← graph.follow? matchers [head] vertex).map (⟨⟨head, vertex⟩, ·⟩)
    else .ok none
  | _, _ => .ok none

end Graph

end StackFlow
