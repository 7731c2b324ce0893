import Mathlib
import StackFlow.Behaviour
import StackFlow.Proofs.Graph.Consistency
import StackFlow.Proofs.Machine.Runs

/-!
# Programs that follow each other

Two programs behave alike if each can follow the other. A program is not
followed vertex by vertex: what one program does in one vertex, another may do
in several. It is followed by stretches, which are straight runs of vertices up
to one that may branch.

A run may end in the middle of a stretch. What it has shown by then is the
beginning of what the other program shows on the whole matching stretch, so
the follower is a number of events ahead; `Tracks` counts them in.
-/

namespace StackFlow

/-- A vertex with children that suit its kind can be left. -/
theorem Kind.Fits.leaves {kind : Kind} {children : List VertexId} (fits : kind.Fits children)
    (state : State) :
    children = [] ∨ ∃ drawn next, children[kind.edge drawn state]? = some next := by
  unfold Kind.Fits Kind.arity? at fits
  unfold Kind.edge Exit.edge
  cases exit : kind.exit with
  | next =>
      simp only [exit, Exit.arity?] at fits
      cases children with
      | nil => exact .inl rfl
      | cons child rest => exact .inr ⟨0, child, rfl⟩
  | popped | tested =>
      simp only [exit, Exit.arity?, List.length_eq_two] at fits
      rcases fits with ⟨first, second, rfl⟩
      right
      refine ⟨0, ?_⟩
      dsimp only
      split_ifs <;> simp
  | random =>
      simp only [exit, Exit.arity?] at fits
      cases children with
      | nil => exact .inl rfl
      | cons child rest => exact .inr ⟨0, child, rfl⟩

namespace Graph

variable {graph other third : Graph}

theorem Steps.trans {first second last : Snapshot} {events others : List Event}
    (before : graph.Steps first events second) (after : graph.Steps second others last) :
    graph.Steps first (events ++ others) last := by
  induction before with
  | refl _ => exact after
  | step edge _ ih =>
      rw [List.append_assoc]
      exact .step edge (ih after)

theorem Step.steps {first last : Snapshot} {events : List Event}
    (step : graph.Step first events last) : graph.Steps first events last := by
  simpa using Steps.step step (.refl last)

/-- A run of vertices of the given kinds from the given vertex on, all of them straight but
perhaps the last, which leads to the exits. -/
inductive Stretch (graph : Graph) : VertexId → List Kind → List VertexId → Prop where
  | last {id : VertexId} {vertex : Vertex} :
      graph.vertex? id = some vertex → Stretch graph id [vertex.kind] vertex.children
  | cons {id next : VertexId} {vertex : Vertex} {kinds : List Kind} {exits : List VertexId} :
      graph.vertex? id = some vertex → vertex.kind.exit = .next → vertex.children = [next] →
      Stretch graph next kinds exits → Stretch graph id (vertex.kind :: kinds) exits

namespace Stretch

variable {id next : VertexId} {kinds : List Kind} {exits : List VertexId}

theorem live (stretch : graph.Stretch id kinds exits) : graph.contains id = true := by
  cases stretch with
  | last found => exact contains_iff.mpr ⟨_, found⟩
  | cons found _ _ _ => exact contains_iff.mpr ⟨_, found⟩

theorem edge_cons (stretch : graph.Stretch id kinds exits) (kind : Kind) (state : State)
    (drawn : Nat) : state.edge (kind :: kinds) drawn = (kind.run state).edge kinds drawn := by
  cases stretch with
  | last _ => rfl
  | cons _ _ _ _ => rfl

theorem exists_vertex (stretch : graph.Stretch id kinds exits) {kind : Kind}
    (member : kind ∈ kinds) : ∃ id vertex, graph.vertex? id = some vertex ∧ vertex.kind = kind := by
  induction stretch with
  | last found =>
      rw [List.mem_singleton] at member
      exact ⟨_, _, found, member.symm⟩
  | cons found _ _ _ ih =>
      rcases List.mem_cons.mp member with rfl | member
      · exact ⟨_, _, found, rfl⟩
      · exact ih member

/-- A stretch of a consistent graph can be left. -/
theorem leaves (stretch : graph.Stretch id kinds exits) (consistent : graph.Consistent)
    (state : State) : exits = [] ∨ ∃ drawn next, exits[state.edge kinds drawn]? = some next := by
  induction stretch generalizing state with
  | last found => exact (consistent.fits found).leaves state
  | cons _ _ _ rest ih =>
      simp only [rest.edge_cons]
      exact ih _

theorem append (first : graph.Stretch id kinds [next]) {others : List Kind}
    (consistent : graph.Consistent) (second : graph.Stretch next others exits) :
    graph.Stretch id (kinds ++ others) exits := by
  generalize only : [next] = between at first
  induction first with
  | last found => exact .cons found (consistent.exit_of_children found only.symm) only.symm second
  | cons found straight children _ ih => exact .cons found straight children (ih only)

/-- A stretch can be run to one of its exits. -/
theorem move (stretch : graph.Stretch id kinds exits) (state : State) (drawn : Nat)
    (leaves : exits[state.edge kinds drawn]? = some next) :
    graph.Steps (.running id state) (state.shown kinds) (.running next (state.through kinds)) := by
  induction stretch generalizing state with
  | last found => simpa using (Step.move drawn found leaves).steps
  | cons found straight children rest ih =>
      rw [rest.edge_cons] at leaves
      refine .step (.move 0 found ?_) (ih _ leaves)
      simp [children, Kind.edge_of_next straight]

/-- A stretch without exits can be run to its end. -/
theorem halt (stretch : graph.Stretch id kinds []) (state : State) :
    graph.Steps (.running id state) (state.shown kinds) (.halted (state.through kinds)) := by
  generalize noExits : ([] : List VertexId) = exits at stretch
  induction stretch generalizing state with
  | last found => simpa using (Step.halt found noExits.symm).steps
  | cons found straight children _ ih =>
      refine .step (.move 0 found ?_) (ih _ noExits)
      simp [children, Kind.edge_of_next straight]

end Stretch

/-- A relation between two programs in the course of their runs. -/
abbrev Pairing := VertexId → State → VertexId → State → Prop

/-- From the given vertices on, both programs run through stretches that show the same, save
that the first has shown some of it before. Every exit of the first stretch is matched. -/
def Tracks (graph other : Graph) (paired : Pairing) (before : List Event)
    (id : VertexId) (state : State) (twin : VertexId) (twinState : State) : Prop :=
  ∃ kinds exits twinKinds twinExits,
    graph.Stretch id kinds exits ∧ other.Stretch twin twinKinds twinExits ∧
    before ++ state.shown kinds = twinState.shown twinKinds ∧
    (exits = [] → twinExits = []) ∧
    (twinExits = [] ∨ ∃ drawn next, twinExits[twinState.edge twinKinds drawn]? = some next) ∧
    ∀ drawn next, exits[state.edge kinds drawn]? = some next →
      ∃ twinDrawn twinNext, twinExits[twinState.edge twinKinds twinDrawn]? = some twinNext ∧
        paired next (state.through kinds) twinNext (twinState.through twinKinds)

/-- From `start` on, the other program can show what the first has shown when it comes to the given
snapshot. It has run to the stretch on which the first is tracked, or it has halted as the first
has. -/
inductive Followed (graph other : Graph) (paired : Pairing) (start : Snapshot) :
    List Event → Snapshot → Prop where
  | running {seen before : List Event} {id twin : VertexId} {state twinState : State} :
      other.Steps start seen (.running twin twinState) →
        graph.Tracks other paired before id state twin twinState →
      Followed graph other paired start (seen ++ before) (.running id state)
  | halted {events : List Event} {state final : State} :
      other.Steps start events (.halted final) →
        Followed graph other paired start events (.halted state)

namespace Followed

variable {paired : Pairing} {start first last : Snapshot} {shown events : List Event}

/-- The follower can finish its stretch, and then it has shown everything that the first has
shown. -/
theorem shows (followed : graph.Followed other paired start shown last) :
    ∃ seen final, other.Steps start seen final ∧ shown <+: seen := by
  cases followed with
  | halted ran => exact ⟨_, _, ran, List.prefix_refl _⟩
  | @running seen before _ _ _ twinState ran tracks =>
      rcases tracks with ⟨kinds, exits, twinKinds, twinExits, -, stretch, same, -, leaves, -⟩
      have ahead : seen ++ before <+: seen ++ twinState.shown twinKinds := by
        rw [List.prefix_append_right_inj, ← same]
        exact List.prefix_append _ _
      rcases leaves with rfl | ⟨drawn, next, leaves⟩
      · exact ⟨_, _, ran.trans (stretch.halt twinState), ahead⟩
      · exact ⟨_, _, ran.trans (stretch.move twinState drawn leaves), ahead⟩

theorem halts {state : State} (followed : graph.Followed other paired start shown (.halted state)) :
    ∃ final, other.Steps start shown (.halted final) := by
  cases followed with
  | halted ran => exact ⟨_, ran⟩

variable (tracked : ∀ {id state twin twinState}, paired id state twin twinState →
  graph.Tracks other paired [] id state twin twinState)

include tracked

/-- Within a stretch the follower waits; when the first program leaves the stretch, so does the
follower. -/
theorem step (followed : graph.Followed other paired start shown first)
    (step : graph.Step first events last) :
    graph.Followed other paired start (shown ++ events) last := by
  cases followed with
  | halted _ => cases step
  | running ran tracks =>
      rcases tracks with
        ⟨kinds, exits, twinKinds, twinExits, stretch, twinStretch, same, childless, leaves, matched⟩
      rw [List.append_assoc]
      cases stretch with
      | last found =>
          simp only [State.shown_cons, State.shown_nil, List.append_nil] at same
          cases step with
          | move drawn foundAgain moves =>
              cases found.symm.trans foundAgain
              rcases matched drawn _ moves with ⟨twinDrawn, twinNext, twinMoves, pair⟩
              have moved := ran.trans (twinStretch.move _ twinDrawn twinMoves)
              rw [← same] at moved
              simpa using Followed.running moved (tracked pair)
          | halt foundAgain noChildren =>
              cases found.symm.trans foundAgain
              rw [childless noChildren] at twinStretch
              rw [same]
              exact .halted (ran.trans (twinStretch.halt _))
      | cons found straight children rest =>
          cases step with
          | move drawn foundAgain moves =>
              cases found.symm.trans foundAgain
              rw [children, Kind.edge_of_next straight] at moves
              cases moves
              refine .running ran ⟨_, exits, twinKinds, twinExits, rest, twinStretch, ?_, childless,
                leaves, ?_⟩
              · rw [← same, State.shown_cons, List.append_assoc]
              · intro drawn next moves
                exact matched drawn next (by rwa [rest.edge_cons])
          | halt foundAgain noChildren =>
              cases found.symm.trans foundAgain
              simp [children] at noChildren

theorem run (steps : graph.Steps first events last)
    (followed : graph.Followed other paired start shown first) :
    graph.Followed other paired start (shown ++ events) last := by
  induction steps generalizing shown with
  | refl _ => rwa [List.append_nil]
  | step step _ ih =>
      rw [← List.append_assoc]
      exact ih (followed.step tracked step)

end Followed

/-- A program that is tracked wherever the pairing holds is followed all along its runs. -/
theorem Tracks.transfers {paired : Pairing} {root twinRoot : VertexId}
    (tracked : ∀ {id state twin twinState}, paired id state twin twinState →
      graph.Tracks other paired [] id state twin twinState)
    (start : graph.root = some root) (twinStart : other.root = some twinRoot)
    (begins : ∀ input, paired root (graph.initialState input) twinRoot (other.initialState input))
    (input : Nat → Word) (events : List Event) :
    (graph.Shows input events → other.Shows input events) ∧
      (graph.HaltsWith input events → other.HaltsWith input events) := by
  have followed {seen : List Event} {snapshot : Snapshot}
      (arrives : graph.Arrives input seen snapshot) :
      graph.Followed other paired (.running twinRoot (other.initialState input)) seen snapshot := by
    rcases arrives with ⟨_, startAgain, steps⟩
    cases start.symm.trans startAgain
    exact Followed.run tracked steps (.running (.refl _) (tracked (begins input)))
  constructor
  · rintro ⟨seen, snapshot, arrives, begun⟩
    rcases (followed arrives).shows with ⟨all, final, steps, ahead⟩
    exact ⟨all, final, ⟨twinRoot, twinStart, steps⟩, begun.trans ahead⟩
  · rintro ⟨state, arrives⟩
    rcases (followed arrives).halts with ⟨final, steps⟩
    exact ⟨final, twinRoot, twinStart, steps⟩

/-- From the given vertices on, both programs run through stretches that show the same, and the
exits of either stretch are matched by exits of the other. -/
def Aligned (graph other : Graph) (paired : Pairing)
    (id : VertexId) (state : State) (twin : VertexId) (twinState : State) : Prop :=
  ∃ kinds exits twinKinds twinExits,
    graph.Stretch id kinds exits ∧ other.Stretch twin twinKinds twinExits ∧
    state.shown kinds = twinState.shown twinKinds ∧
    (exits = [] ↔ twinExits = []) ∧
    (exits = [] ∨ ∃ drawn next, exits[state.edge kinds drawn]? = some next) ∧
    (∀ drawn next, exits[state.edge kinds drawn]? = some next →
      ∃ twinDrawn twinNext, twinExits[twinState.edge twinKinds twinDrawn]? = some twinNext ∧
        paired next (state.through kinds) twinNext (twinState.through twinKinds)) ∧
    ∀ twinDrawn twinNext, twinExits[twinState.edge twinKinds twinDrawn]? = some twinNext →
      ∃ drawn next, exits[state.edge kinds drawn]? = some next ∧
        paired next (state.through kinds) twinNext (twinState.through twinKinds)

section

variable {paired : Pairing} {id twin : VertexId} {state twinState : State}

theorem Aligned.tracks (aligned : graph.Aligned other paired id state twin twinState) :
    graph.Tracks other paired [] id state twin twinState := by
  rcases aligned with
    ⟨kinds, exits, twinKinds, twinExits, stretch, twinStretch, shown, childless, leaves, forth, -⟩
  refine ⟨kinds, exits, twinKinds, twinExits, stretch, twinStretch, shown, childless.mp, ?_, forth⟩
  rcases leaves with noExits | ⟨drawn, next, leaves⟩
  · exact .inl (childless.mp noExits)
  · rcases forth drawn next leaves with ⟨twinDrawn, twinNext, twinLeaves, -⟩
    exact .inr ⟨twinDrawn, twinNext, twinLeaves⟩

theorem Aligned.tracks_back (aligned : graph.Aligned other paired id state twin twinState) :
    other.Tracks graph (fun twin twinState id state => paired id state twin twinState) []
      twin twinState id state := by
  rcases aligned with
    ⟨kinds, exits, twinKinds, twinExits, stretch, twinStretch, shown, childless, leaves, -, back⟩
  exact ⟨twinKinds, twinExits, kinds, exits, twinStretch, stretch, shown.symm, childless.mpr,
    leaves, back⟩

/-- Stretches are aligned if the exits of one are those of the other under new names and both
are left by the edge of the same number. -/
theorem aligned_of_rename {kinds twinKinds : List Kind} {exits : List VertexId}
    (rename : VertexId → VertexId) (stretch : graph.Stretch id kinds exits)
    (twinStretch : other.Stretch twin twinKinds (exits.map rename))
    (shown : state.shown kinds = twinState.shown twinKinds)
    (edges : ∀ drawn, twinState.edge twinKinds drawn = state.edge kinds drawn)
    (leaves : exits = [] ∨ ∃ drawn next, exits[state.edge kinds drawn]? = some next)
    (pairs : ∀ next ∈ exits,
      paired next (state.through kinds) (rename next) (twinState.through twinKinds)) :
    graph.Aligned other paired id state twin twinState := by
  refine ⟨kinds, exits, twinKinds, exits.map rename, stretch, twinStretch, shown, by simp,
    leaves, ?_, ?_⟩
  · intro drawn next moves
    refine ⟨drawn, rename next, ?_, pairs next (List.mem_of_getElem? moves)⟩
    rw [edges, List.getElem?_map, moves]
    rfl
  · intro drawn twinNext moves
    rw [edges, List.getElem?_map] at moves
    rcases Option.map_eq_some_iff.mp moves with ⟨next, leaving, rfl⟩
    exact ⟨drawn, next, leaving, pairs next (List.mem_of_getElem? leaving)⟩

/-- Vertices are aligned if they do the same and their children are paired one by one. -/
theorem aligned_of_vertices {vertex twinVertex : Vertex} (rename : VertexId → VertexId)
    (found : graph.vertex? id = some vertex) (twinFound : other.vertex? twin = some twinVertex)
    (fits : vertex.kind.Fits vertex.children)
    (children : twinVertex.children = vertex.children.map rename)
    (events : vertex.kind.events state = twinVertex.kind.events twinState)
    (edges : ∀ drawn, twinVertex.kind.edge drawn twinState = vertex.kind.edge drawn state)
    (pairs : ∀ next ∈ vertex.children,
      paired next (vertex.kind.run state) (rename next) (twinVertex.kind.run twinState)) :
    graph.Aligned other paired id state twin twinState := by
  have stretch : other.Stretch twin [twinVertex.kind] (vertex.children.map rename) := by
    rw [← children]
    exact .last twinFound
  exact aligned_of_rename rename (.last found) stretch (by simpa using events) edges
    (fits.leaves state) pairs

end

/-- Programs that start in a pair and stay aligned behave alike. -/
theorem behavesLike_of_aligned {paired : Pairing} {root twinRoot : VertexId}
    (aligned : ∀ {id state twin twinState}, paired id state twin twinState →
      graph.Aligned other paired id state twin twinState)
    (start : graph.root = some root) (twinStart : other.root = some twinRoot)
    (begins : ∀ input, paired root (graph.initialState input) twinRoot (other.initialState input)) :
    graph.BehavesLike other := by
  intro input events
  have forth :=
    Tracks.transfers (fun pair => (aligned pair).tracks) start twinStart begins input events
  have back :=
    Tracks.transfers (fun pair => (aligned pair).tracks_back) twinStart start begins input events
  exact ⟨⟨forth.1, back.1⟩, ⟨forth.2, back.2⟩⟩

theorem initialState_congr (vars : graph.vars = other.vars) (grid : graph.grid = other.grid)
    (input : Nat → Word) : graph.initialState input = other.initialState input := by
  unfold initialState initialValue
  rw [vars, grid]

@[refl]
theorem BehavesLike.refl (graph : Graph) : graph.BehavesLike graph :=
  fun _ _ => ⟨Iff.rfl, Iff.rfl⟩

@[trans]
theorem BehavesLike.trans (first : graph.BehavesLike other) (second : other.BehavesLike third) :
    graph.BehavesLike third :=
  fun input events =>
    ⟨(first input events).1.trans (second input events).1,
      (first input events).2.trans (second input events).2⟩

end Graph

end StackFlow
