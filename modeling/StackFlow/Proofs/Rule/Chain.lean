import Mathlib
import StackFlow.Proofs.Rule.Corridor

/-!
# Chains

A chain that a rule finds is a straight run of different vertices. It consists of a
private part, into which nothing else runs behind its head, and of the end that it
shares with other paths. A chain without a shared end is a corridor.
-/

namespace StackFlow

/-- The first link is straight and its only edge leads to the second. -/
def Link.LeadsTo (first second : Link) : Prop :=
  first.vertex.kind.exit = .next ∧ first.vertex.children = [second.id]

theorem Link.exit_of_mem_dropLast {links : List Link} (linked : links.IsChain Link.LeadsTo)
    {link : Link} (member : link ∈ links.dropLast) : link.vertex.kind.exit = .next := by
  rcases List.mem_iff_getElem.mp member with ⟨place, inside, rfl⟩
  rw [List.length_dropLast] at inside
  rw [List.getElem_dropLast]
  exact (List.isChain_iff_getElem.mp linked place (by omega)).1

/-- The chain is a straight run of different vertices of the graph. -/
structure Chain.In (chain : Chain) (graph : Graph) : Prop where
  found : ∀ link ∈ chain.links, graph.vertex? link.id = some link.vertex
  nodup : chain.ids.Nodup
  linked : chain.links.IsChain Link.LeadsTo

namespace Graph

variable {graph : Graph}

theorem follow?_spec {matchers : List Matcher} {passed : List VertexId} {current : Vertex}
    {links : List Link} (followed : graph.follow? matchers passed current = .ok (some links))
    (id : VertexId) :
    List.Forall₂ (fun matcher link => matcher link.vertex = true) matchers links ∧
      (∀ link ∈ links, graph.vertex? link.id = some link.vertex ∧ link.id ∉ passed) ∧
        (links.map Link.id).Nodup ∧ (⟨id, current⟩ :: links).IsChain Link.LeadsTo := by
  fun_induction follow? graph matchers passed current generalizing links id with
  | case1 passed current =>
      cases followed
      simp
  | case2 matcher matchers passed current next children straight known => simp at followed
  | case3 matcher matchers passed current next children straight fresh ih =>
      rcases bind_eq_ok_iff.mp followed with ⟨vertex, found, followed⟩
      rw [vertex_eq_ok_iff] at found
      split_ifs at followed with accepted
      · rcases bind_eq_ok_iff.mp followed with ⟨rest, restFollowed, shape⟩
        cases rest with
        | none => cases shape
        | some rest =>
            cases shape
            rcases ih vertex restFollowed next with ⟨matched, inside, nodup, chained⟩
            refine ⟨.cons accepted matched, ?_, ?_, ?_⟩
            · intro link member
              rcases List.mem_cons.mp member with rfl | member
              · exact ⟨found, fresh⟩
              · exact ⟨(inside link member).1, fun known =>
                  (inside link member).2 (List.mem_cons_of_mem _ known)⟩
            · rw [List.map_cons, List.nodup_cons]
              refine ⟨?_, nodup⟩
              intro again
              rcases List.mem_map.mp again with ⟨link, member, same⟩
              exact (inside link member).2 (by simp [same])
            · rw [List.isChain_cons_cons]
              exact ⟨⟨Kind.isSplit_eq_false_iff.mp straight, children⟩, chained⟩
      · cases followed
  | case4 matcher matchers passed current other => simp at followed

/-- A chain that was found starts at the given vertex, is part of the graph and passes the tests. -/
theorem chain?_spec {matchers : List Matcher} {head : VertexId} {chain : Chain}
    (found : graph.chain? matchers head = .ok (some chain)) :
    chain.head.id = head ∧ chain.In graph ∧
      List.Forall₂ (fun matcher link => matcher link.vertex = true) matchers chain.links := by
  unfold chain? at found
  split at found
  · rename_i matcher matchers vertex headFound
    split_ifs at found with accepted
    · rcases bind_eq_ok_iff.mp found with ⟨rest, followed, shape⟩
      cases rest with
      | none => cases shape
      | some rest =>
          cases shape
          rcases follow?_spec followed head with ⟨matched, inside, nodup, chained⟩
          refine ⟨rfl, ⟨?_, ?_, chained⟩, .cons accepted matched⟩
          · intro link member
            rcases List.mem_cons.mp member with rfl | member
            · exact headFound
            · exact (inside link member).1
          · rw [Chain.ids, Chain.links, List.map_cons, List.nodup_cons]
            refine ⟨?_, nodup⟩
            intro again
            rcases List.mem_map.mp again with ⟨link, member, same⟩
            exact (inside link member).2 (by simp [same])
    · cases found
  · cases found

theorem exists_follow? (consistent : graph.Consistent) {id : VertexId} {current : Vertex}
    (found : graph.vertex? id = some current) (matchers : List Matcher) (passed : List VertexId) :
    ∃ links, graph.follow? matchers passed current = .ok links := by
  fun_induction follow? graph matchers passed current generalizing id with
  | case1 passed current => exact ⟨_, rfl⟩
  | case2 matcher matchers passed current next children straight known => exact ⟨_, rfl⟩
  | case3 matcher matchers passed current next children straight fresh ih =>
      have edge : next ∈ graph.children id := by simp [children_eq found, children]
      rcases contains_iff.mp (consistent.child_live edge) with ⟨vertex, nextFound⟩
      rcases ih vertex nextFound with ⟨links, followed⟩
      rw [vertex_eq_ok_iff.mpr nextFound]
      by_cases accepted : matcher vertex = true
      · exact ⟨links.map (⟨next, vertex⟩ :: ·),
          by simp [accepted, followed, bind, Except.bind, pure, Except.pure]⟩
      · exact ⟨none, by simp [accepted, bind, Except.bind, pure, Except.pure]⟩
  | case4 matcher matchers passed current other => exact ⟨_, rfl⟩

/-- Looking for a chain never fails, as all edges lead to vertices. -/
theorem exists_chain? (consistent : graph.Consistent) (matchers : List Matcher) (head : VertexId) :
    ∃ chain, graph.chain? matchers head = .ok chain := by
  fun_cases chain? graph matchers head with
  | case1 matcher matchers vertex found accepted =>
      rcases exists_follow? consistent found matchers [head] with ⟨links, followed⟩
      exact ⟨links.map (⟨⟨head, vertex⟩, ·⟩),
        by simp [followed, bind, Except.bind, pure, Except.pure]⟩
  | case2 => exact ⟨none, rfl⟩
  | case3 => exact ⟨none, rfl⟩

end Graph

namespace Chain

variable (chain : Chain)

/-- The part of the chain before its shared end. -/
def privateLinks : List Link :=
  chain.head :: chain.rest.takeWhile (·.vertex.parents.length = 1)

theorem privateLinks_append_shared : chain.privateLinks ++ chain.shared = chain.links := by
  simp [privateLinks, shared, links, List.takeWhile_append_dropWhile]

theorem mem_links_of_mem_private {link : Link} (member : link ∈ chain.privateLinks) :
    link ∈ chain.links :=
  chain.privateLinks_append_shared ▸ List.mem_append_left _ member

theorem mem_links_of_mem_shared {link : Link} (member : link ∈ chain.shared) : link ∈ chain.links :=
  chain.privateLinks_append_shared ▸ List.mem_append_right _ member

theorem getLast?_links : chain.links.getLast? = some chain.last := by
  simp [links, last, List.getLast?_cons]

theorem last_mem : chain.last ∈ chain.links :=
  List.mem_of_getLast? chain.getLast?_links

theorem getLast?_shared (nonempty : chain.shared ≠ []) :
    chain.shared.getLast? = some chain.last := by
  rw [← getLast?_links, ← privateLinks_append_shared, List.getLast?_append_of_ne_nil _ nonempty]

theorem map_id_privateLinks : chain.privateLinks.map Link.id = chain.privateIds := by
  simp [privateLinks, privateIds]

theorem exists_anchor : ∃ anchor, chain.privateLinks.getLast? = some anchor :=
  ⟨_, List.getLast?_eq_some_getLast (by simp [privateLinks])⟩

theorem getLastD_privateIds {anchor : Link} (isLast : chain.privateLinks.getLast? = some anchor) :
    chain.privateIds.getLastD chain.head.id = anchor.id := by
  rw [← chain.map_id_privateLinks, List.getLastD_eq_getLast?, List.getLast?_map, isLast]
  rfl

/-- The vertices of the private part, followed by the copies of the shared ones from the given slot
on. -/
def copiedIds (size : Nat) : List VertexId :=
  chain.privateIds ++ (List.range chain.shared.length).map fun offset => ⟨size + offset⟩

theorem getLast?_copiedIds {first : Link} {others : List Link}
    (shape : chain.shared = first :: others) (size : Nat) :
    (chain.copiedIds size).getLast? = some ⟨size + (chain.shared.length - 1)⟩ := by
  rw [copiedIds, List.getLast?_append_of_ne_nil _ (by simp [shape]), List.getLast?_map,
    List.getLast?_range, if_neg (by simp [shape])]
  rfl

end Chain

namespace Chain.In

open StackFlow.Graph

variable {graph : Graph} {chain : Chain} (inside : chain.In graph)

include inside

theorem live {link : Link} (member : link ∈ chain.links) : graph.contains link.id = true :=
  contains_iff.mpr ⟨link.vertex, inside.found link member⟩

theorem kinds_kept :
    List.Forall₂ (fun id kind => (graph.vertex? id).map (·.kind) = some kind) chain.ids
      (chain.nodes.map Node.kind) := by
  rw [Chain.ids, Chain.nodes, List.map_map, List.forall₂_map_left_iff, List.forall₂_map_right_iff,
    List.forall₂_same]
  intro link member
  simp [inside.found link member]

/-- A vertex of the chain with a single incoming edge is entered from the vertex before. -/
theorem joins (consistent : graph.Consistent) {first second : Link}
    (firstMember : first ∈ chain.links) (secondMember : second ∈ chain.links)
    (leads : first.LeadsTo second) (single : second.vertex.parents.length = 1) :
    graph.Joins first.id second.id := by
  have children : graph.children first.id = [second.id] := by
    rw [children_eq (inside.found first firstMember), leads.2]
  refine ⟨children, ?_⟩
  rw [parents_eq (inside.found second secondMember)]
  rcases List.length_eq_one_iff.mp single with ⟨parent, only⟩
  have member : first.id ∈ graph.parents second.id :=
    consistent.mem_children_iff.mp (by simp [children])
  rw [parents_eq (inside.found second secondMember), only, List.mem_singleton] at member
  rw [only, member]

theorem found_last : graph.vertex? chain.last.id = some chain.last.vertex :=
  inside.found chain.last chain.last_mem

theorem exits_live (consistent : graph.Consistent) :
    ∀ exit ∈ chain.exits, graph.contains exit = true := by
  intro exit member
  have edge : exit ∈ graph.children chain.last.id := by rwa [children_eq inside.found_last]
  exact consistent.child_live edge

theorem linked_private : chain.privateLinks.IsChain Link.LeadsTo := by
  have linked := inside.linked
  rw [← chain.privateLinks_append_shared, List.isChain_append] at linked
  exact linked.1

theorem linked_shared : chain.shared.IsChain Link.LeadsTo := by
  have linked := inside.linked
  rw [← chain.privateLinks_append_shared, List.isChain_append] at linked
  exact linked.2.1

theorem nodup_ids : (chain.privateLinks.map Link.id ++ chain.shared.map Link.id).Nodup := by
  rw [← List.map_append, chain.privateLinks_append_shared]
  exact inside.nodup

section

variable {anchor first : Link} {others : List Link} (shape : chain.shared = first :: others)
include shape

theorem anchor_leads (isLast : chain.privateLinks.getLast? = some anchor) :
    anchor.LeadsTo first := by
  have linked := inside.linked
  rw [← chain.privateLinks_append_shared, List.isChain_append] at linked
  exact linked.2.2 anchor isLast first (by simp [shape])

/-- The shared end begins where more than one edge comes in. -/
theorem parents_first : (graph.parents first.id).length ≠ 1 := by
  have refused :=
    List.head?_dropWhile_not (fun link : Link => decide (link.vertex.parents.length = 1)) chain.rest
  rw [show chain.rest.dropWhile _ = first :: others from shape] at refused
  rw [parents_eq (inside.found first (chain.mem_links_of_mem_shared (by simp [shape])))]
  simpa using refused

end

end Chain.In

namespace Graph

variable {graph : Graph} {chain : Chain}

/-- A chain that nothing else runs into is a corridor as it stands. -/
theorem corridor_of_unshared (inside : chain.In graph) (consistent : graph.Consistent)
    (unshared : chain.shared = []) (root : ∀ link ∈ chain.rest, graph.root ≠ some link.id) :
    graph.Corridor chain.ids chain.head.id chain.last.id (chain.nodes.map Node.kind) := by
  have single : ∀ link ∈ chain.rest, link.vertex.parents.length = 1 := by
    simpa [Chain.shared, List.dropWhile_eq_nil_iff] using unshared
  apply corridor_of_isChain consistent inside.nodup inside.kinds_kept
  · rw [List.isChain_iff_getElem]
    intro place more
    rw [Chain.ids, List.length_map] at more
    simp only [Chain.ids, List.getElem_map]
    refine inside.joins consistent (List.getElem_mem _) (List.getElem_mem _)
      (List.isChain_iff_getElem.mp inside.linked place more) (single _ ?_)
    simp [Chain.links]
  · simp [Chain.ids, Chain.links]
  · simp [Chain.ids, Chain.getLast?_links]
  · intro id member isRoot
    simp only [Chain.ids, Chain.links, List.map_cons, List.mem_cons, List.mem_map] at member
    rcases member with same | ⟨link, member, rfl⟩
    · exact same
    · exact absurd isRoot (root link member)

end Graph

end StackFlow
