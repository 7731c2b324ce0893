import Mathlib
import StackFlow.Graph.Walk
import StackFlow.Proofs.Depth.Clamping

/-!
# Exact stack sizes

The exploration of depths is exhaustive when it ends with a bound, and it ends
without one only if some loop can be run as often as one likes.

`Exploration.Sound` is what every exploration satisfies on its way. Its last
part is the reason why the exploration ends: as long as nothing was popped past
the bottom, a vertex that is entered again is not entered deeper, so every
vertex adds to the depth at most once.
-/

namespace StackFlow

/-- The vertices of the path are passed in order, from the root on, and then the
vertex is entered at the depth. -/
inductive Graph.Enters (graph : Graph) : List VertexId → VertexId → Nat → Prop where
  | root {id : VertexId} : graph.root = some id → Enters graph [] id 0
  | child {path : List VertexId} {id next : VertexId} {vertex : Vertex} {depth : Nat} :
      Enters graph path id depth → graph.vertex? id = some vertex → next ∈ vertex.children →
      Enters graph (path ++ [id]) next (vertex.kind.depthAfter depth)

/-- The greatest depth on the way through some vertex of some path. -/
def Graph.peaks (graph : Graph) : Set Nat :=
  {peak | ∃ path id vertex depth,
    graph.Enters path id depth ∧ graph.vertex? id = some vertex ∧ peak = vertex.kind.peak depth}

/-- What a stack size says about the paths of a graph. -/
def StackSize.Describes (graph : Graph) : StackSize → Prop
  | .bounded size => IsGreatest graph.peaks size
  | .unbounded => ∀ bound, ∃ path id depth, graph.Enters path id depth ∧ bound < depth

namespace Depth

variable {graph : Graph} {root : VertexId} {state : Exploration} {point other : Point}

/-- One vertex leads from one point to the other. -/
def Point.Leads (graph : Graph) (point other : Point) : Prop :=
  ∃ vertex, graph.vertex? point.vertex = some vertex ∧ other.vertex ∈ vertex.children ∧
    other.depth = vertex.kind.depthAfter point.depth

/-- Some path enters the vertex of the point at its depth. -/
def Point.Entered (graph : Graph) (point : Point) : Prop :=
  ∃ path, graph.Enters path point.vertex point.depth

theorem Point.Entered.lead (entered : point.Entered graph) (leads : point.Leads graph other) :
    other.Entered graph := by
  rcases entered with ⟨path, entered⟩
  rcases leads with ⟨vertex, found, isChild, depth⟩
  refine ⟨path ++ [point.vertex], ?_⟩
  rw [depth]
  exact .child entered found isChild

theorem Point.clamped_eq {vertex : Vertex} (found : graph.vertex? point.vertex = some vertex) :
    point.clamped graph = clamps vertex.kind point.depth := by
  simp [Point.clamped, found]

section Pumping

/-- A path that pops nothing past the bottom can be run from any greater depth. -/
theorem Point.Leads.shift (leads : point.Leads graph other)
    (unclamped : point.clamped graph = false) (extra : Nat) :
    Point.Leads graph ⟨point.vertex, point.depth + extra⟩ ⟨other.vertex, other.depth + extra⟩ := by
  rcases leads with ⟨vertex, found, isChild, depth⟩
  refine ⟨vertex, found, isChild, ?_⟩
  rw [Point.clamped_eq found] at unclamped
  simp only [depth, Kind.depthAfter_add_of_not_clamps unclamped]

/-- The first point is reached from the second without a pop past the bottom. -/
def Exploration.Follows (graph : Graph) (state : Exploration) (later earlier : Point) : Prop :=
  (state.behind graph).Reaches later earlier

theorem mem_behind_next :
    other ∈ (state.behind graph).next point ↔ (other, point) ∈ state.steps ∧
      other.clamped graph = false := by
  simp [Exploration.behind]

/-- What can be entered with some extra depth at the earlier point, can be
entered with the same extra depth at the later one. -/
theorem Exploration.Follows.entered {later earlier : Point}
    (steps : ∀ point other, (point, other) ∈ state.steps → point.Leads graph other)
    (follows : state.Follows graph later earlier) {extra : Nat}
    (entered : Point.Entered graph ⟨earlier.vertex, earlier.depth + extra⟩) :
    Point.Entered graph ⟨later.vertex, later.depth + extra⟩ := by
  induction follows with
  | refl _ => exact entered
  | step edge _ ih =>
      rcases mem_behind_next.mp edge with ⟨taken, unclamped⟩
      exact (ih entered).lead ((steps _ _ taken).shift unclamped extra)

end Pumping

/-- The greatest number of values that one vertex pushes. -/
def maxPushes (graph : Graph) : Nat :=
  (graph.vertices.map fun (_, vertex) =>
    vertex.kind.ops.foldl (fun total op => total + op.pushes) 0)
    |>.foldl max 0

/-- A depth that no point exceeds before a growing loop is found. Since the last pop past the bottom
a path passes each vertex at no greater depth than the first time, so every vertex adds to the depth
at most once. -/
def depthLimit (graph : Graph) : Nat :=
  graph.size * maxPushes graph

/-- The point is no deeper than the pushes of different vertices on the way to it allow. -/
def Exploration.Shallow (graph : Graph) (state : Exploration) (point : Point) : Prop :=
  ∃ passed : List VertexId, passed.Nodup ∧ (∀ id ∈ passed, graph.contains id = true) ∧
    point.depth ≤ maxPushes graph * passed.length ∧
      ∀ id ∈ passed, ∃ earlier, earlier.vertex = id ∧ state.Follows graph point earlier

/-- What holds on the way through an exploration. -/
structure Exploration.Sound (graph : Graph) (root : VertexId) (state : Exploration) : Prop where
  /-- Explored points are entered by some path. -/
  entered : ∀ point ∈ state.points, point.Entered graph
  /-- Steps start at explored points and follow edges. -/
  steps : ∀ point other, (point, other) ∈ state.steps → point ∈ state.points ∧
    point.Leads graph other
  /-- Arrivals come from explored points, except for the first. -/
  work : ∀ arrival ∈ state.work,
    (arrival.source = none ∧ arrival.point = ⟨root, 0⟩) ∨
      ∃ source ∈ state.points, arrival.source = some source ∧ source.Leads graph arrival.point
  /-- What an explored point leads to is explored or still to be looked at. -/
  closed : ∀ point ∈ state.points, ∀ other, point.Leads graph other →
    other ∈ state.points ∨ ∃ arrival ∈ state.work, arrival.point = other
  /-- So is the root. -/
  start : ⟨root, 0⟩ ∈ state.points ∨ ∃ arrival ∈ state.work, arrival.point = ⟨root, 0⟩
  shallow : ∀ point ∈ state.points, state.Shallow graph point

section Steps

variable {arrival : Arrival} {work : List Arrival}

theorem le_foldl_max {bound start : Nat} {values : List Nat}
    (reached : bound ≤ start ∨ ∃ value ∈ values, bound ≤ value) :
    bound ≤ values.foldl max start := by
  induction values generalizing start with
  | nil => simpa using reached
  | cons first values ih =>
      apply ih
      rcases reached with reached | ⟨value, member, reached⟩
      · exact .inl (le_max_of_le_left reached)
      · rcases List.mem_cons.mp member with rfl | member
        · exact .inl (le_max_of_le_right reached)
        · exact .inr ⟨value, member, reached⟩

theorem foldl_max_mem (start : Nat) (values : List Nat) :
    values.foldl max start ∈ start :: values := by
  induction values generalizing start with
  | nil => simp
  | cons first values ih =>
      simp only [List.foldl_cons]
      rcases List.mem_cons.mp (ih (max start first)) with greatest | member
      · rw [greatest]
        rcases max_choice start first with same | same <;> simp [same]
      · exact List.mem_cons_of_mem _ (List.mem_cons_of_mem _ member)

theorem pushes_le_maxPushes {id : VertexId} {vertex : Vertex}
    (found : graph.vertex? id = some vertex) : vertex.kind.pushes ≤ maxPushes graph :=
  le_foldl_max
    (.inr ⟨_, List.mem_map.mpr ⟨(id, vertex), Graph.mem_vertices.mpr found, rfl⟩, le_rfl⟩)

theorem mem_addStep_steps {pair : Point × Point} :
    pair ∈ (state.addStep arrival).steps ↔
      (arrival.source = some pair.1 ∧ pair.2 = arrival.point) ∨ pair ∈ state.steps := by
  rcases pair with ⟨first, second⟩
  cases source : arrival.source with
  | none => simp [Exploration.addStep, source]
  | some point =>
      simp only [Exploration.addStep, source, Option.toList_some, List.map_cons, List.map_nil,
        List.foldl_cons, List.foldl_nil, List.mem_insert_iff, Prod.mk.injEq, Option.some.injEq]
      tauto

theorem Exploration.Follows.mono {changed : Exploration} {later earlier : Point}
    (kept : ∀ pair ∈ state.steps, pair ∈ changed.steps)
    (follows : state.Follows graph later earlier) : changed.Follows graph later earlier := by
  induction follows with
  | refl _ => exact .refl _
  | step edge _ ih =>
      rcases mem_behind_next.mp edge with ⟨taken, unclamped⟩
      exact .step (mem_behind_next.mpr ⟨kept _ taken, unclamped⟩) ih

theorem Exploration.Shallow.mono {changed : Exploration}
    (kept : ∀ pair ∈ state.steps, pair ∈ changed.steps) (shallow : state.Shallow graph point) :
    changed.Shallow graph point := by
  rcases shallow with ⟨passed, nodup, live, depth, behind⟩
  refine ⟨passed, nodup, live, depth, fun id isPassed => ?_⟩
  rcases behind id isPassed with ⟨earlier, same, follows⟩
  exact ⟨earlier, same, follows.mono kept⟩

theorem Exploration.Sound.leads_of_source (sound : state.Sound graph root)
    (waits : arrival ∈ state.work) {source : Point} (isSource : arrival.source = some source) :
    source ∈ state.points ∧ source.Leads graph arrival.point := by
  rcases sound.work arrival waits with ⟨absent, _⟩ | ⟨other, member, isOther, leads⟩
  · simp [isSource] at absent
  · rw [isSource, Option.some.injEq] at isOther
    subst other
    exact ⟨member, leads⟩

theorem Exploration.Sound.arrival_entered (rooted : graph.root = some root)
    (sound : state.Sound graph root) (waits : arrival ∈ state.work) :
    arrival.point.Entered graph := by
  rcases sound.work arrival waits with ⟨_, isRoot⟩ | ⟨source, explored, _, leads⟩
  · rw [isRoot]
    exact ⟨[], .root rooted⟩
  · exact (sound.entered source explored).lead leads

/-- What was to be looked at is the first arrival or is still to be looked at. -/
theorem eq_or_waits (first : state.work = arrival :: work)
    (waits : ∃ other ∈ state.work, other.point = point) :
    point = arrival.point ∨ ∃ other ∈ work, other.point = point := by
  rcases waits with ⟨other, waits, rfl⟩
  rw [first] at waits
  rcases List.mem_cons.mp waits with rfl | waits
  · exact .inl rfl
  · exact .inr ⟨other, waits, rfl⟩

theorem Exploration.Follows.mem_points {later earlier : Point} (sound : state.Sound graph root)
    (follows : state.Follows graph later earlier) (member : later ∈ state.points) :
    earlier ∈ state.points := by
  induction follows with
  | refl _ => exact member
  | step edge _ ih => exact ih (sound.steps _ _ (mem_behind_next.mp edge).1).1

theorem grows_iff :
    state.grows graph arrival = true ↔
      ∃ source earlier, arrival.source = some source ∧ source.clamped graph = false ∧
        state.Follows graph source earlier ∧ earlier.vertex = arrival.point.vertex ∧
          earlier.depth < arrival.point.depth := by
  simp only [Exploration.grows, List.any_eq_true, Digraph.mem_search_iff, List.mem_filter,
    Option.mem_toList, Bool.not_eq_eq_eq_not, Bool.not_true, Bool.and_eq_true, decide_eq_true_eq]
  constructor
  · rintro ⟨earlier, ⟨source, ⟨isSource, unclamped⟩, follows⟩, same, deeper⟩
    exact ⟨source, earlier, isSource, unclamped, follows, same, deeper⟩
  · rintro ⟨source, earlier, isSource, unclamped, follows, same, deeper⟩
    exact ⟨earlier, ⟨source, ⟨isSource, unclamped⟩, follows⟩, same, deeper⟩

/-- A loop that grows the stack can be run any number of times. -/
theorem entered_of_grows (sound : state.Sound graph root) (waits : arrival ∈ state.work)
    (grows : state.grows graph arrival = true) (bound : Nat) :
    ∃ point : Point, point.Entered graph ∧ bound < point.depth := by
  rcases grows_iff.mp grows with ⟨source, earlier, isSource, unclamped, follows, same, deeper⟩
  have comes := sound.leads_of_source waits isSource
  have earlierEntered := sound.entered earlier (follows.mem_points sound comes.1)
  -- Every round adds the same gain, as nothing is popped past the bottom at any greater depth.
  have rounds : ∀ count : Nat, Point.Entered graph
      ⟨earlier.vertex, earlier.depth + count * (arrival.point.depth - earlier.depth)⟩ := by
    intro count
    induction count with
    | zero => simpa using earlierEntered
    | succ count ih =>
        have atSource := follows.entered (fun _ _ taken => (sound.steps _ _ taken).2) ih
        have back := atSource.lead (comes.2.shift unclamped _)
        rw [← same] at back
        convert back using 2
        rw [Nat.add_mul]
        omega
  refine ⟨_, rounds (bound + 1), ?_⟩
  have gain : (bound + 1) * 1 ≤ (bound + 1) * (arrival.point.depth - earlier.depth) :=
    Nat.mul_le_mul_left _ (by omega)
  simp only
  omega

/-- A known point changes nothing but the steps. -/
theorem Exploration.Sound.addStep (sound : state.Sound graph root)
    (first : state.work = arrival :: work) (known : arrival.point ∈ state.points) :
    (Exploration.addStep { state with work := work } arrival).Sound graph root := by
  have kept : ∀ pair ∈ state.steps,
      pair ∈ (Exploration.addStep { state with work := work } arrival).steps :=
    fun pair taken => mem_addStep_steps.mpr (.inr taken)
  have looked {point : Point} (waits : ∃ other ∈ state.work, other.point = point) :
      point ∈ state.points ∨ ∃ other ∈ work, other.point = point := by
    rcases eq_or_waits first waits with rfl | waits
    · exact .inl known
    · exact .inr waits
  refine ⟨sound.entered, ?_, ?_, ?_, ?_, fun point member => (sound.shallow point member).mono kept⟩
  · intro point other taken
    rcases mem_addStep_steps.mp taken with ⟨isSource, rfl⟩ | taken
    · exact sound.leads_of_source (by simp [first]) isSource
    · exact sound.steps point other taken
  · intro other waits
    exact sound.work other (by rw [first]; exact List.mem_cons_of_mem _ waits)
  · intro point member other leads
    rcases sound.closed point member other leads with explored | waits
    · exact .inl explored
    · exact looked waits
  · rcases sound.start with explored | waits
    · exact .inl explored
    · exact looked waits

theorem depth_le_of_leads (leads : point.Leads graph other) :
    other.depth ≤ point.depth + maxPushes graph := by
  rcases leads with ⟨vertex, found, _, depth⟩
  have own := vertex.kind.depthAfter_le point.depth
  have bound := pushes_le_maxPushes found
  omega

theorem depth_le_of_clamped (leads : point.Leads graph other)
    (clamped : point.clamped graph = true) : other.depth ≤ maxPushes graph := by
  rcases leads with ⟨vertex, found, _, depth⟩
  rw [Point.clamped_eq found] at clamped
  have own := Kind.depthAfter_le_of_clamps clamped
  have bound := pushes_le_maxPushes found
  omega

/-- The new point of an arrival that closes no growing loop is as shallow as the others. -/
theorem Exploration.Sound.shallow_arrival (sound : state.Sound graph root)
    (waits : arrival ∈ state.work) (live : graph.contains arrival.point.vertex = true)
    (steady : state.grows graph arrival = false) :
    (state.addStep arrival).Shallow graph arrival.point := by
  have alone (depth : arrival.point.depth ≤ maxPushes graph) :
      (state.addStep arrival).Shallow graph arrival.point := by
    refine ⟨[arrival.point.vertex], by simp, by simpa using live, by simpa using depth, ?_⟩
    intro id isPassed
    exact ⟨arrival.point, (List.mem_singleton.mp isPassed).symm, .refl _⟩
  rcases sound.work arrival waits with ⟨_, isRoot⟩ | ⟨source, member, isSource, leads⟩
  · exact alone (by simp [isRoot])
  · cases clamped : source.clamped graph with
    | true => exact alone (depth_le_of_clamped leads clamped)
    | false =>
        have behindSource : ∀ earlier, state.Follows graph source earlier →
            (state.addStep arrival).Follows graph arrival.point earlier := by
          intro earlier follows
          refine .step (mem_behind_next.mpr ⟨mem_addStep_steps.mpr (.inl ⟨isSource, rfl⟩), clamped⟩)
            ?_
          exact follows.mono fun pair taken => mem_addStep_steps.mpr (.inr taken)
        rcases sound.shallow source member with ⟨passed, nodup, passedLive, depth, behind⟩
        by_cases again : arrival.point.vertex ∈ passed
        · -- The vertex was passed before, and then it was entered at least as deep.
          rcases behind _ again with ⟨earlier, same, follows⟩
          have noDeeper : arrival.point.depth ≤ earlier.depth := by
            by_contra deeper
            have grows :=
              grows_iff.mpr ⟨source, earlier, isSource, clamped, follows, same, by omega⟩
            simp [steady] at grows
          rcases sound.shallow earlier (follows.mem_points sound member) with
            ⟨before, nodupBefore, liveBefore, depthBefore, behindEarlier⟩
          refine ⟨before, nodupBefore, liveBefore, noDeeper.trans depthBefore,
            fun id isPassed => ?_⟩
          rcases behindEarlier id isPassed with ⟨first, sameFirst, followsFirst⟩
          exact ⟨first, sameFirst, behindSource first (follows.trans followsFirst)⟩
        · refine ⟨arrival.point.vertex :: passed, List.nodup_cons.mpr ⟨again, nodup⟩, ?_, ?_, ?_⟩
          · intro id isPassed
            rcases List.mem_cons.mp isPassed with rfl | isPassed
            · exact live
            · exact passedLive id isPassed
          · have next := depth_le_of_leads leads
            rw [List.length_cons, Nat.mul_add]
            omega
          · intro id isPassed
            rcases List.mem_cons.mp isPassed with rfl | isPassed
            · exact ⟨arrival.point, rfl, .refl _⟩
            · rcases behind id isPassed with ⟨earlier, same, follows⟩
              exact ⟨earlier, same, behindSource earlier follows⟩

/-- A new point is explored. -/
theorem Exploration.Sound.addPoint {vertex : Vertex} (rooted : graph.root = some root)
    (sound : state.Sound graph root) (first : state.work = arrival :: work)
    (found : graph.vertex? arrival.point.vertex = some vertex)
    (steady : state.grows graph arrival = false) :
    ((Exploration.addStep { state with work := work } arrival).addPoint vertex arrival.point).Sound
      graph root := by
  have waits : arrival ∈ state.work := by simp [first]
  have still : ∀ {point : Point}, (∃ other ∈ work, other.point = point) →
      ∃ other ∈ ((Exploration.addStep { state with work := work } arrival).addPoint vertex
        arrival.point).work, other.point = point := by
    rintro point ⟨other, waits, same⟩
    exact ⟨other, List.mem_append_right _ waits, same⟩
  refine ⟨?_, ?_, ?_, ?_, ?_, ?_⟩
  · intro point member
    rcases List.mem_cons.mp member with rfl | member
    · exact sound.arrival_entered rooted waits
    · exact sound.entered point member
  · intro point other taken
    rcases mem_addStep_steps.mp taken with ⟨isSource, rfl⟩ | taken
    · exact (sound.leads_of_source waits isSource).imp_left (List.mem_cons_of_mem _)
    · exact (sound.steps point other taken).imp_left (List.mem_cons_of_mem _)
  · intro other waits
    rcases List.mem_append.mp waits with fresh | waits
    · rcases List.mem_map.mp fresh with ⟨child, isChild, rfl⟩
      exact .inr ⟨arrival.point, by simp [Exploration.addPoint], rfl, vertex, found,
        List.mem_reverse.mp isChild, rfl⟩
    · rcases sound.work other (by rw [first]; exact List.mem_cons_of_mem _ waits) with
        isRoot | ⟨source, explored, comes⟩
      · exact .inl isRoot
      · exact .inr ⟨source, List.mem_cons_of_mem _ explored, comes⟩
  · intro point member other leads
    rcases List.mem_cons.mp member with rfl | member
    · rcases leads with ⟨same, foundSame, isChild, depth⟩
      rw [found, Option.some.injEq] at foundSame
      subst same
      refine .inr
        ⟨⟨other, some arrival.point⟩, List.mem_append_left _ (List.mem_map.mpr ⟨other.vertex, ?_⟩),
          rfl⟩
      exact ⟨List.mem_reverse.mpr isChild, by rw [← depth]⟩
    · rcases sound.closed point member other leads with explored | waits
      · exact .inl (List.mem_cons_of_mem _ explored)
      · rcases eq_or_waits first waits with rfl | waits
        · exact .inl (by simp [Exploration.addPoint])
        · exact .inr (still waits)
  · rcases sound.start with explored | waits
    · exact .inl (List.mem_cons_of_mem _ explored)
    · rcases eq_or_waits first waits with same | waits
      · exact .inl (by simp [Exploration.addPoint, same])
      · exact .inr (still waits)
  · intro point member
    rcases List.mem_cons.mp member with rfl | member
    · exact sound.shallow_arrival waits (Graph.contains_iff.mpr ⟨vertex, found⟩) steady
    · exact (sound.shallow point member).mono fun pair taken => mem_addStep_steps.mpr (.inr taken)

theorem Exploration.Sound.depth_le (sound : state.Sound graph root)
    (member : point ∈ state.points) : point.depth ≤ depthLimit graph := by
  rcases sound.shallow point member with ⟨passed, nodup, live, depth, _⟩
  have few : passed.length ≤ graph.size := by
    apply List.Subperm.length_le
    exact nodup.subperm fun id isPassed => Graph.mem_ids.mpr (live id isPassed)
  calc point.depth ≤ maxPushes graph * passed.length := depth
    _ ≤ maxPushes graph * graph.size := Nat.mul_le_mul_left _ few
    _ = depthLimit graph := Nat.mul_comm _ _

end Steps

section Termination

/-- The points that an exploration can come to. -/
def candidates (graph : Graph) : List Point :=
  graph.ids.flatMap fun id => (List.range (depthLimit graph + 1)).map (Point.mk id)

/-- The edges that leave candidates which are not explored yet. -/
def openEdges (graph : Graph) (points : List Point) : Nat :=
  ((candidates graph).map fun point =>
    if point ∈ points then 0 else (graph.children point.vertex).length).sum

/-- The arrivals that may still have to be looked at. -/
def Exploration.due (graph : Graph) (state : Exploration) : Nat :=
  openEdges graph state.points + state.work.length

theorem mem_candidates :
    point ∈ candidates graph ↔ graph.contains point.vertex = true ∧
      point.depth ≤ depthLimit graph := by
  rcases point with ⟨id, depth⟩
  simp [candidates, Graph.mem_ids]

theorem openEdges_cons_le {points : List Point} (candidate : point ∈ candidates graph)
    (fresh : point ∉ points) :
    openEdges graph (point :: points) + (graph.children point.vertex).length ≤
      openEdges graph points := by
  unfold openEdges
  generalize candidates graph = list at candidate ⊢
  induction list with
  | nil => simp at candidate
  | cons first others ih =>
      have fewer : ∀ list : List Point,
          (list.map fun other =>
            if other ∈ point :: points then 0 else (graph.children other.vertex).length).sum ≤
          (list.map fun other =>
            if other ∈ points then 0 else (graph.children other.vertex).length).sum := by
        intro list
        apply List.sum_le_sum
        intro other _
        by_cases known : other ∈ points <;> by_cases same : other = point <;> simp [known, same]
      simp only [List.map_cons, List.sum_cons]
      rcases List.mem_cons.mp candidate with rfl | candidate
      · have rest := fewer others
        simp only [List.mem_cons, true_or, if_true, fresh, if_false] at rest ⊢
        omega
      · have rest := ih candidate
        have own := fewer [first]
        simp only [List.map_cons, List.map_nil, List.sum_cons, List.sum_nil, Nat.add_zero] at own
        omega

theorem openEdges_nil :
    openEdges graph [] = (depthLimit graph + 1) *
      (graph.vertices.flatMap fun (_, vertex) => vertex.children).length := by
  have edges : (graph.vertices.flatMap fun (_, vertex) => vertex.children).length =
      (graph.ids.map fun id => (graph.children id).length).sum := by
    unfold Graph.vertices
    induction graph.ids with
    | nil => simp
    | cons id ids ih =>
        cases found : graph.vertex? id with
        | none => simpa [found, Graph.children] using ih
        | some vertex => simpa [found, Graph.children] using ih
  rw [edges, ← List.sum_map_mul_left]
  unfold openEdges candidates
  induction graph.ids with
  | nil => simp
  | cons id ids ih =>
      simp only [List.flatMap_cons, List.map_append, List.sum_append, ih, List.map_cons,
        List.sum_cons]
      simp [Function.comp_def]

theorem entered_reaches (rooted : graph.root = some root) (entered : point.Entered graph) :
    graph.edges.Reaches root point.vertex := by
  rcases point with ⟨id, depth⟩
  rcases entered with ⟨path, entered⟩
  simp only at entered ⊢
  induction entered with
  | root isRoot =>
      rw [rooted, Option.some.injEq] at isRoot
      exact isRoot ▸ .refl _
  | child _ found isChild ih =>
      refine ih.tail ?_
      simpa [Graph.edges, Graph.children, found] using isChild

/-- An exploration with nothing left to look at has found every point that can be entered. -/
theorem Exploration.Sound.mem_points_of_entered (rooted : graph.root = some root)
    (sound : state.Sound graph root) (done : state.work = []) (entered : point.Entered graph) :
    point ∈ state.points := by
  rcases point with ⟨id, depth⟩
  rcases entered with ⟨path, entered⟩
  simp only at entered
  induction entered with
  | root isRoot =>
      rw [rooted, Option.some.injEq] at isRoot
      subst isRoot
      simpa [done] using sound.start
  | child _ found isChild ih => simpa [done] using sound.closed _ ih _ ⟨_, found, isChild, rfl⟩

variable (rooted : graph.root = some root)
  (live : ∀ id, graph.edges.Reaches root id → graph.contains id = true)

include rooted live

theorem mem_peaks_of_entered (entered : point.Entered graph) : point.peak graph ∈ graph.peaks := by
  rcases Graph.contains_iff.mp (live point.vertex (entered_reaches rooted entered)) with
    ⟨vertex, found⟩
  rcases entered with ⟨path, entered⟩
  exact ⟨path, point.vertex, vertex, point.depth, entered, found, by simp [Point.peak, found]⟩

theorem Exploration.Sound.describes_of_done (sound : state.Sound graph root)
    (done : state.work = []) :
    (StackSize.bounded ((state.points.map (Point.peak graph)).foldl max 0)).Describes graph := by
  constructor
  · rcases List.mem_cons.mp (foldl_max_mem 0 (state.points.map (Point.peak graph))) with
      zero | member
    · -- Then the root does not push anything either, so that its peak is the greatest.
      have rootExplored : (⟨root, 0⟩ : Point) ∈ state.points := by simpa [done] using sound.start
      have least : Point.peak graph ⟨root, 0⟩ ≤ (state.points.map (Point.peak graph)).foldl max 0 :=
        le_foldl_max (.inr ⟨_, List.mem_map_of_mem rootExplored, le_rfl⟩)
      have same : (state.points.map (Point.peak graph)).foldl max 0 =
          Point.peak graph ⟨root, 0⟩ := by omega
      rw [same]
      exact mem_peaks_of_entered rooted live (sound.entered _ rootExplored)
    · rcases List.mem_map.mp member with ⟨point, explored, same⟩
      rw [← same]
      exact mem_peaks_of_entered rooted live (sound.entered point explored)
  · rintro peak ⟨path, id, vertex, depth, entered, found, rfl⟩
    have explored : (⟨id, depth⟩ : Point) ∈ state.points :=
      sound.mem_points_of_entered rooted done ⟨path, entered⟩
    exact le_foldl_max (.inr ⟨_, List.mem_map_of_mem explored, by simp [Point.peak, found]⟩)

/-- What comes of looking at the first arrival: everything is explored, a growing loop is found, or
less is left to be looked at than before. -/
theorem Exploration.Sound.advance_cases (sound : state.Sound graph root) :
    (state.work = [] ∧
      state.advance graph =
        .finished (.ok (.bounded ((state.points.map (Point.peak graph)).foldl max 0)))) ∨
    (∃ arrival ∈ state.work, state.grows graph arrival = true ∧
      state.advance graph = .finished (.ok .unbounded)) ∨
    ∃ next, state.advance graph = .running next ∧ next.Sound graph root ∧
      next.due graph < state.due graph := by
  unfold Exploration.advance Exploration.due
  cases first : state.work with
  | nil => exact .inl ⟨rfl, rfl⟩
  | cons arrival work =>
      have waits : arrival ∈ state.work := by simp [first]
      have arrivalLive := live _ (entered_reaches rooted (sound.arrival_entered rooted waits))
      rcases Graph.contains_iff.mp arrivalLive with ⟨vertex, found⟩
      right
      by_cases known : arrival.point ∈ state.points
      · refine .inr ⟨_, by simp only [known, if_true], sound.addStep first known, ?_⟩
        simp [Exploration.addStep]
      · cases grows : state.grows graph arrival with
        | true => exact .inl ⟨arrival, by simp, grows, by simp [known, grows]⟩
        | false =>
            have added := sound.addPoint rooted first found grows
            have candidate : arrival.point ∈ candidates graph :=
              mem_candidates.mpr ⟨arrivalLive, added.depth_le (by simp [Exploration.addPoint])⟩
            have used := openEdges_cons_le candidate known
            refine .inr ⟨_, by simp only [known, if_false, found, grows, Bool.false_eq_true],
              added, ?_⟩
            simp only [Exploration.addPoint, Exploration.addStep, List.length_append,
              List.length_map, List.length_reverse, List.length_cons]
            simp only [Graph.children, found] at used
            omega

/-- What holds where an exploration ends, and before an arrival if it does after, holds of all. -/
@[elab_as_elim]
theorem Exploration.Sound.run_induction {motive : Exploration → Prop}
    (done : ∀ state : Exploration, state.Sound graph root → state.work = [] →
      state.advance graph =
        .finished (.ok (.bounded ((state.points.map (Point.peak graph)).foldl max 0))) →
      motive state)
    (grows : ∀ (state : Exploration) (arrival : Arrival), state.Sound graph root →
      arrival ∈ state.work → state.grows graph arrival = true →
      state.advance graph = .finished (.ok .unbounded) → motive state)
    (step : ∀ state next : Exploration, state.advance graph = .running next → motive next →
      motive state)
    (sound : state.Sound graph root) : motive state := by
  -- The induction is on what is due: every arrival that is looked at leaves less of it.
  induction measure : state.due graph using Nat.strong_induction_on generalizing state with
  | h due rest =>
      rcases sound.advance_cases rooted live with
        ⟨empty, ends⟩ | ⟨arrival, waits, closes, ends⟩ | ⟨next, goesOn, nextSound, fewer⟩
      · exact done state sound empty ends
      · exact grows state arrival sound waits closes ends
      · exact step state next goesOn (rest _ (measure ▸ fewer) nextSound rfl)

/-- An exploration ends, and what it finds is exact. -/
theorem Exploration.Sound.run_describes (sound : state.Sound graph root) :
    ∃ size, state.run graph = .ok size ∧ size.Describes graph := by
  refine run_induction rooted live ?_ ?_ ?_ sound
  · intro state sound done ends
    exact ⟨_, by rw [Exploration.run_eq, ends], sound.describes_of_done rooted live done⟩
  · intro state arrival sound waits grows ends
    refine ⟨.unbounded, by rw [Exploration.run_eq, ends], fun bound => ?_⟩
    rcases entered_of_grows sound waits grows bound with ⟨point, ⟨path, entered⟩, deeper⟩
    exact ⟨path, point.vertex, point.depth, entered, deeper⟩
  · intro state next goesOn ih
    rwa [Exploration.run_eq, goesOn]

omit rooted live in
theorem Exploration.start_sound : (Exploration.start root).Sound graph root := by
  refine ⟨by simp [Exploration.start], by simp [Exploration.start], ?_, by simp [Exploration.start],
    ?_, by simp [Exploration.start]⟩
  · intro arrival waits
    simp only [Exploration.start, List.mem_singleton] at waits
    subst waits
    exact .inl ⟨rfl, rfl⟩
  · exact .inr ⟨⟨⟨root, 0⟩, none⟩, by simp [Exploration.start], rfl⟩

end Termination

section Evaluation

variable {result : Except GraphError StackSize}

/-- What an exploration finds within the given number of arrivals; `none` if it goes on. -/
def Exploration.run? (graph : Graph) : Nat → Exploration → Option (Except GraphError StackSize)
  | 0, _ => none
  | limit + 1, state =>
    match state.advance graph with
    | .finished result => some result
    | .running next => next.run? graph limit

theorem Exploration.run_of_run? {limit : Nat} (found : state.run? graph limit = some result) :
    state.run graph = result := by
  induction limit generalizing state with
  | zero => cases found
  | succ limit ih =>
      rw [Exploration.run_eq]
      rw [Exploration.run?] at found
      cases advances : state.advance graph with
      | finished other =>
          rw [advances] at found
          exact Option.some.inj found
      | running next =>
          rw [advances] at found
          exact ih found

end Evaluation

end Depth

namespace Graph

variable {graph : Graph} {root : VertexId}

theorem stackSize_of_root (rooted : graph.root = some root) :
    graph.stackSize = (Depth.Exploration.start root).run graph := by
  simp only [stackSize, rooted]

/-- The stack size, if it is found within the given number of arrivals. -/
def stackSizeWithin? (graph : Graph) (limit : Nat) : Option (Except GraphError StackSize) :=
  graph.root.bind fun root => (Depth.Exploration.start root).run? graph limit

theorem stackSize_of_within? {result : Except GraphError StackSize} (limit : Nat)
    (found : graph.stackSizeWithin? limit = some result) : graph.stackSize = result := by
  rcases Option.bind_eq_some_iff.mp found with ⟨root, rooted, ran⟩
  rw [stackSize_of_root rooted]
  exact Depth.Exploration.run_of_run? ran

/-- The predicted stack size is exact: a bound is the greatest depth that any path
reaches on its way through a vertex, and without a bound paths get as deep as one
likes. There is always an answer. -/
theorem stackSize_exact {graph : Graph} {root : VertexId} (rooted : graph.root = some root)
    (live : ∀ id, graph.edges.Reaches root id → graph.contains id = true) :
    ∃ size, graph.stackSize = .ok size ∧ size.Describes graph := by
  rw [stackSize_of_root rooted]
  exact Depth.Exploration.start_sound.run_describes rooted live

/-- A vertex that pushes a value and is its own successor. -/
def pushingLoop : Graph where
  slots := #[some { kind := .single (.push (.const 1)), children := [⟨0⟩], parents := [⟨0⟩] }]
  root := some ⟨0⟩
  grid := .blank 0 0
  vars := #[]

theorem stackSize_exact_pushingLoop :
    pushingLoop.stackSize = .ok .unbounded ∧ StackSize.unbounded.Describes pushingLoop := by
  have found : pushingLoop.stackSize = .ok .unbounded := stackSize_of_within? 2 (by decide +kernel)
  have live (id : VertexId) (path : pushingLoop.edges.Reaches ⟨0⟩ id) :
      pushingLoop.contains id = true := by
    generalize start : (⟨0⟩ : VertexId) = first at path
    induction path with
    | refl _ =>
        subst start
        rfl
    | step edge _ ih =>
        subst start
        exact ih (List.mem_singleton.mp edge).symm
  rcases stackSize_exact rfl live with ⟨size, sized, describes⟩
  obtain rfl : size = .unbounded := Except.ok.inj (sized.symm.trans found)
  exact ⟨found, describes⟩

end Graph

end StackFlow
