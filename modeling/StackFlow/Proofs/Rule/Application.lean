import Mathlib
import StackFlow.Proofs.Rule.Catalog
import StackFlow.Proofs.Rule.Splicing

/-!
# Rules at work

An attempt to apply a rule at a vertex of a valid graph finds nothing to do, or
replaces a chain, or meets a fault of the rule. Nothing else can go wrong, and a
chain that is replaced leaves a valid graph.

A scan is a run of attempts. So it stops early only for a fault of the rule, and
the graph it leaves behind is valid even then. If all that the rule builds does the
same as the chains that it accepts, the program behaves as before.
-/

namespace StackFlow

/-- What is built is put in the place of the chain as it is. If nothing is built, the chain is
bypassed, or a vertex that does nothing is left behind where the chain leads nowhere. -/
theorem Replacement.ofNodes?_cases {chain : Chain} {nodes : List Node} {replacement : Replacement}
    (shaped : ofNodes? chain nodes = some replacement) :
    (∃ first rest, nodes = first :: rest ∧ replacement = .nodes first rest) ∨
      (nodes = [] ∧ chain.exits = [] ∧ ∃ node, replacement = .nodes node [] ∧
        node.kind = .single .nop) ∨
      nodes = [] ∧ ∃ exit, chain.exits = [exit] ∧ replacement = .bypass exit := by
  cases nodes with
  | cons first rest =>
      cases shaped
      exact .inl ⟨first, rest, rfl, rfl⟩
  | nil =>
      simp only [ofNodes?] at shaped
      split at shaped
      · rename_i nowhere
        cases shaped
        exact .inr (.inl ⟨rfl, nowhere, _, rfl, rfl⟩)
      · rename_i exit only
        cases shaped
        exact .inr (.inr ⟨rfl, exit, only, rfl⟩)
      · cases shaped

theorem Graph.Rewritten.of_ofNodes? {graph other : Graph} {chain : Chain} {nodes : List Node}
    {replacement : Replacement} {kinds : List Kind}
    (shaped : Replacement.ofNodes? chain nodes = some replacement)
    (rewritten : graph.Rewritten other (replacement.toList.map Node.kind) kinds) :
    graph.Rewritten other (nodes.map Node.kind) kinds := by
  rcases Replacement.ofNodes?_cases shaped with
    ⟨first, rest, rfl, rfl⟩ | ⟨rfl, -, node, rfl, nop⟩ | ⟨rfl, exit, -, rfl⟩
  · exact rewritten
  -- The rule has built nothing, so what it promises is about nothing and not about the vertex left
  -- behind.
  · simp only [Replacement.toList, List.map_cons, List.map_nil, nop] at rewritten
    refine ⟨rewritten.valid, fun imitates => rewritten.alike imitates.nop,
      fun _ => rewritten.declared ?_⟩
    simp [Kind.vars, Kind.ops, Kind.test?, Kind.exit, Op.vars, Op.ownVariable, Op.expressions]
  · exact rewritten

namespace Rule

/-- Whatever the rule builds for a straight run of vertices does the same as the run. -/
def LocallySound (rule : Rule) : Prop :=
  ∀ ⦃chain : Chain⦄ ⦃nodes : List Node⦄, chain.links.IsChain Link.LeadsTo → rule.Accepts chain →
    rule.build? chain = some nodes → Imitates (nodes.map Node.kind) (chain.nodes.map Node.kind)

/-- Why the rule cannot replace the chain. -/
def fault? (rule : Rule) (chain : Chain) : Option SpliceFault :=
  match rule.build? chain with
  | none => some .refused
  | some nodes => spliceFault? nodes chain.exits.length

variable {rule : Rule} {graph other : Graph} {chain : Chain} {head : VertexId}

theorem Sound.locallySound (sound : rule.Sound) : rule.LocallySound :=
  fun _ _ _ accepted built => (sound accepted built).toImitates

/-- The kind of exit is that of the chain, so the exits of the chain suit what a reliable rule
builds. -/
theorem Reliable.fault?_eq_none (reliable : rule.Reliable) (consistent : graph.Consistent)
    (inside : chain.In graph) (accepted : rule.Accepts chain) : rule.fault? chain = none := by
  rcases reliable accepted with ⟨nodes, built, supplants⟩
  simp only [fault?, built]
  refine spliceFault?_eq_none_iff.mpr ⟨?_, ?_⟩
  · intro node member
    apply supplants.straight
    rw [← List.map_dropLast]
    exact List.mem_map_of_mem member
  · intro last isLast
    have same : last.kind.arity? = chain.last.vertex.kind.arity? := by
      apply supplants.arity
      · rw [List.getLast?_map, isLast, Option.map_some]
      · rw [chain.map_kind_nodes, List.getLast?_map, chain.getLast?_links, Option.map_some]
    -- The last vertex of the chain suits the exits, as it has them.
    have fits : chain.last.vertex.kind.Fits chain.exits := consistent.fits inside.found_last
    rwa [Kind.Fits, same]

theorem declines_eq_false (kept : rule.declines graph chain = false) :
    (∀ link ∈ chain.rest, graph.root ≠ some link.id) ∧
      ∀ link ∈ chain.shared, graph.onCycle link.id = false := by
  simp only [declines, Bool.or_eq_false_iff] at kept
  rcases kept with ⟨⟨root, extracts⟩, -⟩
  constructor
  · intro link member isRoot
    simp only [isRoot, Option.any_some, decide_eq_false_iff_not, List.mem_map, not_exists,
      not_and] at root
    exact root link member rfl
  · intro link member
    have shared : chain.shared.isEmpty = false := by
      cases shape : chain.shared with
      | nil => simp [shape] at member
      | cons first others => rfl
    simp only [shared, Bool.not_false, Bool.true_and, Bool.or_eq_false_iff,
      List.any_eq_false] at extracts
    simpa using extracts.2 link member

/-- A bypass never leads back to the head of the chain, as this would leave the chain its own
exit. -/
theorem fits_of_ofNodes? {nodes : List Node} {replacement : Replacement}
    (shaped : Replacement.ofNodes? chain nodes = some replacement)
    (changes : ¬isIdle chain replacement.toList = true)
    (faultless : spliceFault? replacement.toList chain.exits.length = none) :
    replacement.Fits chain := by
  rcases Replacement.ofNodes?_cases shaped with
    ⟨first, rest, rfl, rfl⟩ | ⟨rfl, -, node, rfl, -⟩ | ⟨rfl, exit, only, rfl⟩
  · exact faultless
  · exact faultless
  · refine ⟨only, ?_⟩
    rintro rfl
    simp [isIdle, only, Replacement.toList] at changes

theorem spliceFault?_of_ofNodes? {nodes : List Node} {replacement : Replacement}
    {fault : SpliceFault} (shaped : Replacement.ofNodes? chain nodes = some replacement)
    (faulty : spliceFault? replacement.toList chain.exits.length = some fault) :
    spliceFault? nodes chain.exits.length = some fault := by
  rcases Replacement.ofNodes?_cases shaped with
    ⟨first, rest, rfl, rfl⟩ | ⟨rfl, nowhere, node, rfl, nop⟩ | ⟨rfl, exit, -, rfl⟩
  · exact faulty
  · simp [nowhere, nop, Replacement.toList, spliceFault?, Kind.arity?, Kind.exit,
      Exit.arity?] at faulty
  · exact faulty

theorem replacement?_cases (rule : Rule) (graph : Graph) (chain : Chain) :
    rule.replacement? graph chain = .ok none ∨
      (∃ fault, rule.replacement? graph chain = .error (.invalidSplice rule.name fault) ∧
        rule.fault? chain = some fault) ∨
      ∃ replacement nodes, rule.replacement? graph chain = .ok (some replacement) ∧
        rule.declines graph chain = false ∧ rule.build? chain = some nodes ∧
        Replacement.ofNodes? chain nodes = some replacement ∧
        isIdle chain replacement.toList = false ∧ replacement.Fits chain := by
  fun_cases replacement? rule graph chain with
  | case1 declined => exact .inl rfl
  | case2 kept refused => exact .inr (.inl ⟨.refused, rfl, by simp [fault?, refused]⟩)
  | case3 kept nodes built unshaped => exact .inl rfl
  | case4 kept nodes built replacement shaped idle => exact .inl rfl
  | case5 kept nodes built replacement shaped changes fault faulty =>
      refine .inr (.inl ⟨fault, rfl, ?_⟩)
      simp [fault?, built, spliceFault?_of_ofNodes? shaped faulty]
  | case6 kept nodes built replacement shaped changes faultless =>
      exact .inr (.inr ⟨replacement, nodes, rfl, by simpa using kept, built, shaped,
        by simpa using changes, fits_of_ofNodes? shaped changes faultless⟩)

/-- The rule replaces a chain of the first graph by vertices that it has built, and this gives the
second graph. -/
structure Fires (rule : Rule) (graph other : Graph) (chain : Chain) (nodes : List Node) : Prop where
  inside : chain.In graph
  accepted : rule.Accepts chain
  acyclic : ∀ link ∈ chain.shared, graph.onCycle link.id = false
  built : rule.build? chain = some nodes
  spliced : ∃ replacement, Replacement.ofNodes? chain nodes = some replacement ∧
    isIdle chain replacement.toList = false ∧ graph.Spliced other chain replacement

theorem Fires.rewritten {nodes : List Node} (fires : rule.Fires graph other chain nodes) :
    graph.Rewritten other (nodes.map Node.kind) (chain.nodes.map Node.kind) := by
  rcases fires.spliced with ⟨replacement, shaped, -, spliced⟩
  exact spliced.rewritten.of_ofNodes? shaped

/-- What a reliable rule puts in the place of a chain costs less than the chain, also where it is a
vertex that does nothing: a chain that is such a vertex is left alone. -/
theorem Fires.exists_cheaper {nodes : List Node} (reliable : rule.Reliable)
    (fires : rule.Fires graph other chain nodes) :
    ∃ replacement, graph.Spliced other chain replacement ∧
      Cheaper (replacement.toList.map Node.kind) (chain.nodes.map Node.kind) := by
  rcases fires.spliced with ⟨replacement, shaped, changes, spliced⟩
  rcases reliable fires.accepted with ⟨_, built, supplants⟩
  cases fires.built.symm.trans built
  refine ⟨replacement, spliced, ?_⟩
  rcases Replacement.ofNodes?_cases shaped with
    ⟨first, rest, rfl, rfl⟩ | ⟨rfl, -, node, rfl, nop⟩ | ⟨rfl, exit, -, rfl⟩
  · exact supplants.cheaper
  · simp only [Replacement.toList, List.map_cons, List.map_nil, nop]
    apply supplants.cheaper.nop
    intro same
    simp [isIdle, Replacement.toList, nop, same] at changes
  · exact supplants.cheaper

/-- What an attempt at one vertex may come to. -/
theorem applyAt?_cases (valid : graph.Valid) (rule : Rule) (head : VertexId) :
    rule.applyAt? graph head = .ok none ∨
      (∃ chain fault, rule.applyAt? graph head = .error (.invalidSplice rule.name fault) ∧
        chain.In graph ∧ rule.Accepts chain ∧ rule.fault? chain = some fault) ∨
      ∃ other chain nodes, rule.applyAt? graph head = .ok (some other) ∧
        rule.Fires graph other chain nodes := by
  rcases Graph.exists_chain? valid.consistent rule.matchers head with ⟨found, chainFound⟩
  cases found with
  | none => exact .inl (by simp [applyAt?, chainFound, bind, Except.bind, pure, Except.pure])
  | some chain =>
      rcases Graph.chain?_spec chainFound with ⟨-, inside, accepted⟩
      rcases rule.replacement?_cases graph chain with decided | ⟨fault, decided, faulty⟩ |
        ⟨replacement, nodes, decided, kept, built, shaped, changes, fits⟩
      · left
        simp [applyAt?, chainFound, decided, bind, Except.bind, pure, Except.pure]
      · right; left
        refine ⟨chain, fault, ?_, inside, accepted, faulty⟩
        simp [applyAt?, chainFound, decided, bind, Except.bind]
      · right; right
        rcases declines_eq_false kept with ⟨root, acyclic⟩
        rcases Graph.exists_spliced valid inside acyclic root fits with ⟨other, result, spliced⟩
        refine ⟨other, chain, nodes, ?_, inside, accepted, acyclic, built, replacement, shaped,
          changes, spliced⟩
        simp [applyAt?, chainFound, decided, result, bind, Except.bind, pure, Except.pure]

theorem fires_of_applyAt? (valid : graph.Valid)
    (applied : rule.applyAt? graph head = .ok (some other)) :
    ∃ chain nodes, rule.Fires graph other chain nodes := by
  rcases applyAt?_cases valid rule head with
    passed | ⟨_, _, failed, -⟩ | ⟨changed, chain, nodes, result, fires⟩
  · simp [passed] at applied
  · simp [failed] at applied
  · cases result.symm.trans applied
    exact ⟨chain, nodes, fires⟩

theorem fault_of_applyAt? (valid : graph.Valid) {error : GraphError}
    (failed : rule.applyAt? graph head = .error error) :
    ∃ chain fault, error = .invalidSplice rule.name fault ∧ chain.In graph ∧ rule.Accepts chain ∧
      rule.fault? chain = some fault := by
  rcases applyAt?_cases valid rule head with passed | ⟨chain, fault, result, rest⟩ |
    ⟨_, _, _, applied, -⟩
  · simp [passed] at failed
  · cases result.symm.trans failed
    exact ⟨chain, fault, rfl, rest⟩
  · simp [applied] at failed

/-- What holds at the start of a scan and is kept by every replacement holds of the graph that the
scan leaves behind, and it held where the scan failed. -/
theorem scanFrom_keeps (rule : Rule) {motive : Graph → Prop}
    (step : ∀ {reached changed : Graph} {head : VertexId}, motive reached →
      rule.applyAt? reached head = .ok (some changed) → motive changed)
    (start : motive graph) (heads : List VertexId) :
    motive (rule.scanFrom graph heads).graph ∧
      ∀ error, (rule.scanFrom graph heads).failure = some error →
        ∃ reached head, motive reached ∧ rule.applyAt? reached head = .error error := by
  fun_induction scanFrom rule graph heads with
  | case1 graph => exact ⟨start, by simp⟩
  | case2 graph head heads error failed =>
      refine ⟨start, ?_⟩
      rintro _ ⟨⟩
      exact ⟨graph, head, start, failed⟩
  | case3 graph head heads passed ih => exact ih start
  | case4 graph head heads changed applied scan ih => exact ih (step start applied)

theorem apply_eq_ok_iff {applied : Nat} :
    rule.apply graph = .ok (other, applied) ↔
      (rule.scan graph).failure = none ∧ (rule.scan graph).graph = other ∧
        (rule.scan graph).applied = applied := by
  unfold apply
  dsimp only
  cases (rule.scan graph).failure <;> simp

theorem apply_eq_error_iff {error : GraphError} :
    rule.apply graph = .error error ↔ (rule.scan graph).failure = some error := by
  unfold apply
  dsimp only
  cases (rule.scan graph).failure <;> simp

theorem scan_valid (rule : Rule) (valid : graph.Valid) :
    (rule.scan graph).graph.Valid ∧
      ∀ error, (rule.scan graph).failure = some error →
        ∃ fault reached chain, error = .invalidSplice rule.name fault ∧ reached.Consistent ∧
          chain.In reached ∧ rule.Accepts chain ∧ rule.fault? chain = some fault := by
  have step {reached changed : Graph} {head : VertexId} (reachedValid : reached.Valid)
      (applied : rule.applyAt? reached head = .ok (some changed)) : changed.Valid := by
    rcases fires_of_applyAt? reachedValid applied with ⟨_, _, fires⟩
    exact fires.rewritten.valid
  rcases rule.scanFrom_keeps step valid graph.walk with ⟨scanned, failures⟩
  refine ⟨scanned, ?_⟩
  intro error failure
  rcases failures error failure with ⟨reached, head, reachedValid, failed⟩
  rcases fault_of_applyAt? reachedValid failed with ⟨chain, fault, named, rest⟩
  exact ⟨fault, reached, chain, named, reachedValid.consistent, rest⟩

/-- What every replacement in a valid graph keeps is kept by the scan, which comes from one valid
graph to the next. -/
theorem scan_keeps (rule : Rule) {motive : Graph → Prop}
    (step : ∀ {reached changed : Graph} {chain : Chain} {nodes : List Node}, reached.Valid →
      motive reached → rule.Fires reached changed chain nodes → motive changed)
    (valid : graph.Valid) (start : motive graph) : motive (rule.scan graph).graph := by
  have both {reached changed : Graph} {head : VertexId} (holds : reached.Valid ∧ motive reached)
      (applied : rule.applyAt? reached head = .ok (some changed)) :
      changed.Valid ∧ motive changed := by
    rcases fires_of_applyAt? holds.1 applied with ⟨chain, nodes, fires⟩
    exact ⟨fires.rewritten.valid, step holds.1 holds.2 fires⟩
  exact (rule.scanFrom_keeps both ⟨valid, start⟩ graph.walk).1.2

theorem apply_of_reliable (reliable : rule.Reliable) (valid : graph.Valid) :
    rule.apply graph = .ok ((rule.scan graph).graph, (rule.scan graph).applied) := by
  rw [apply_eq_ok_iff]
  refine ⟨?_, rfl, rfl⟩
  cases failure : (rule.scan graph).failure with
  | none => rfl
  | some error =>
      rcases (rule.scan_valid valid).2 error failure with
        ⟨fault, reached, chain, -, consistent, inside, accepted, faulty⟩
      rw [reliable.fault?_eq_none consistent inside accepted] at faulty
      cases faulty

/-- A scan of a valid graph succeeds or fails for a fault of the rule, and leaves a valid graph
behind in both cases. The rules of the optimizer have no faults. -/
theorem apply_keeps_valid (rule : Rule) (valid : graph.validate = .ok ()) :
    (rule.scan graph).graph.validate = .ok () ∧
      (rule.apply graph = .ok ((rule.scan graph).graph, (rule.scan graph).applied) ∨
        ∃ fault, rule.apply graph = .error (.invalidSplice rule.name fault)) ∧
      (rule ∈ peephole ∨ rule ∈ fusion →
        rule.apply graph = .ok ((rule.scan graph).graph, (rule.scan graph).applied)) := by
  rw [Graph.validate_eq_ok_iff] at valid ⊢
  refine ⟨(rule.scan_valid valid).1, ?_, ?_⟩
  · cases failure : (rule.scan graph).failure with
    | none => exact .inl (apply_eq_ok_iff.mpr ⟨failure, rfl, rfl⟩)
    | some error =>
        rcases (rule.scan_valid valid).2 error failure with ⟨fault, _, _, rfl, -⟩
        exact .inr ⟨fault, apply_eq_error_iff.mpr failure⟩
  · rintro (member | member)
    · exact apply_of_reliable (reliable_of_mem_peephole member) valid
    · exact apply_of_reliable (reliable_of_mem_fusion member) valid

/-- Puts a push of zero into a block and refuses any other push. -/
def wrapZero : Rule where
  name := "wrap_zero"
  matchers := [single Op.isPush]
  builders := [fuse fun
    | [.single (.push (.const 0))] => some (.block [.push (.const 0)])
    | _ => none]

/-- Pushes zero and then one, again and again. -/
def zeroOne : Graph where
  slots := #[
    some { kind := .single (.push (.const 0)), children := [⟨1⟩], parents := [⟨1⟩] },
    some { kind := .single (.push (.const 1)), children := [⟨0⟩], parents := [⟨0⟩] }]
  root := some ⟨0⟩
  grid := .blank 0 0
  vars := #[]

/-- The scan replaces the first vertex and fails at the second. -/
theorem apply_keeps_valid_zeroOne :
    zeroOne.validate = .ok () ∧
      wrapZero.apply zeroOne = .error (.invalidSplice "wrap_zero" .refused) ∧
      (wrapZero.scan zeroOne).applied = 1 ∧ (wrapZero.scan zeroOne).graph.validate = .ok () := by
  have valid : zeroOne.validate = .ok () := by decide +kernel
  exact ⟨valid, by decide +kernel, by decide +kernel, (wrapZero.apply_keeps_valid valid).1⟩

theorem scan_behavesLike (sound : rule.LocallySound) (valid : graph.Valid) :
    graph.BehavesLike (rule.scan graph).graph := by
  refine rule.scan_keeps ?_ valid (.refl graph)
  intro reached changed chain nodes _ alike fires
  exact alike.trans (fires.rewritten.alike (sound fires.inside.linked fires.accepted fires.built))

/-- A scan with a rule that is sound on every straight run of vertices keeps the behaviour of the
program. -/
theorem apply_keeps_behaviour (sound : rule.LocallySound) (valid : graph.validate = .ok ())
    {applied : Nat} (result : rule.apply graph = .ok (other, applied)) :
    graph.BehavesLike other := by
  rw [Graph.validate_eq_ok_iff] at valid
  rcases apply_eq_ok_iff.mp result with ⟨-, rfl, -⟩
  exact scan_behavesLike sound valid

/-- Reads a number and prints one of two numbers. The last vertex is shared by both branches. -/
def sharedOutput : Graph where
  slots := #[
    some { kind := .single (.input .number), children := [⟨1⟩] },
    some { kind := .decision, children := [⟨2⟩, ⟨3⟩], parents := [⟨0⟩] },
    some { kind := .single (.push (.const 1)), children := [⟨4⟩], parents := [⟨1⟩] },
    some { kind := .single (.push (.const 2)), children := [⟨4⟩], parents := [⟨1⟩] },
    some { kind := .single (.output .number), parents := [⟨2⟩, ⟨3⟩] }]
  root := some ⟨0⟩
  grid := .blank 0 0
  vars := #[]

/-- The last vertex is copied for one of the branches, and both branches are replaced. -/
theorem apply_keeps_behaviour_sharedOutput :
    ∃ other, foldOutput.LocallySound ∧ sharedOutput.validate = .ok () ∧
      foldOutput.apply sharedOutput = .ok (other, 2) ∧ sharedOutput.BehavesLike other := by
  have sound : foldOutput.LocallySound := reliable_foldOutput.sound.locallySound
  have valid : sharedOutput.validate = .ok () := by decide +kernel
  have result : foldOutput.apply sharedOutput = .ok ((foldOutput.scan sharedOutput).graph, 2) :=
    apply_eq_ok_iff.mpr ⟨by decide +kernel, rfl, by decide +kernel⟩
  exact ⟨_, sound, valid, result, apply_keeps_behaviour sound valid result⟩

theorem scan_declared (sound : rule.Sound) (valid : graph.Valid) (declared : graph.Declared) :
    (rule.scan graph).graph.Declared := by
  refine rule.scan_keeps ?_ valid declared
  intro reached changed chain nodes _ reachedDeclared fires
  exact fires.rewritten.declared (sound fires.accepted fires.built).vars reachedDeclared

theorem apply_spec (sound : rule.Sound) (wellFormed : graph.WellFormed) {applied : Nat}
    (result : rule.apply graph = .ok (other, applied)) :
    other.WellFormed ∧ graph.BehavesLike other := by
  have valid : graph.Valid := Graph.valid_iff.mpr ⟨wellFormed.consistent, wellFormed.rooted⟩
  rcases apply_eq_ok_iff.mp result with ⟨-, rfl, -⟩
  rcases Graph.valid_iff.mp (rule.scan_valid valid).1 with ⟨consistent, rooted⟩
  exact ⟨⟨consistent, rooted, scan_declared sound valid wellFormed.declared⟩,
    scan_behavesLike sound.locallySound valid⟩

theorem saturate_spec (sound : rule.Sound) {limit total : Nat} (wellFormed : graph.WellFormed)
    (result : rule.saturate limit graph = .ok (other, total)) :
    other.WellFormed ∧ graph.BehavesLike other := by
  induction limit generalizing graph total with
  | zero =>
      cases result
      exact ⟨wellFormed, .refl _⟩
  | succ limit ih =>
      unfold saturate at result
      rcases bind_eq_ok_iff.mp result with ⟨⟨changed, applied⟩, scanned, rest⟩
      rcases apply_spec sound wellFormed scanned with ⟨kept, alike⟩
      dsimp only at rest
      split_ifs at rest
      · cases rest
        exact ⟨kept, alike⟩
      · rcases bind_eq_ok_iff.mp rest with ⟨⟨final, others⟩, saturated, same⟩
        cases same
        rcases ih kept saturated with ⟨finalKept, finalAlike⟩
        exact ⟨finalKept, alike.trans finalAlike⟩

end Rule

end StackFlow
