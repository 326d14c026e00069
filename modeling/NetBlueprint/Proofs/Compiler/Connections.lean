import NetBlueprint.Proofs.Compiler.Binding
import NetBlueprint.Proofs.Compiler.Trail

/-!
Contract: what becomes of connections, where edges come from, and that every compiled network is
well-formed.

The endpoints of a connection are looked up twice: where the connection stands, to decide whether
an error is reported, and at the end, to wire it. Between the two the state only grows, so what was
found the first time is found the second time.
-/

namespace NetBlueprint

namespace Compile

def stateOf (outcome : Except CompileFault Unit × CompileState) : CompileState :=
  outcome.2

def builtState (name : String) (seed : UInt64) (program : Instruction) : CompileState :=
  stateOf ((build name program).run (CompileState.start name seed))

def finalState (name : String) (seed : UInt64) (program : Instruction) : CompileState :=
  stateOf (run name seed program)

def tallyOf (built : CompileState) : Tally :=
  (bindEach built.pending.toList (⟨0, 0⟩, built)).1

/-- How many connections the final wiring of a run wired and skipped. -/
def finalTally (name : String) (seed : UInt64) (program : Instruction) : Tally :=
  tallyOf (builtState name seed program)

/-- The root of the visits of a run that compiled to a network, and what it starts from and leads
to. -/
structure RootOf (name : String) (seed : UInt64) (program : Instruction) (compiled : Compiled)
    (root : Visit) : Prop where
  isRoot : rootVisit? name seed program = some root
  instruction : root.instruction = program
  prepared : Runs (prepare name program) (CompileState.start name seed) () root.before
  faithful : root.Faithful
  sound : root.before.Sound
  noPending : root.before.pending.toList = []
  noEdges : ∀ source target, ¬ root.before.network.Edge source target
  builds : Runs (build name program) (CompileState.start name seed) () root.after
  built : builtState name seed program = root.after
  final : finalState name seed program = bindAll root.after
  network : compiled.network = (bindAll root.after).network

private theorem answer_eq_ok {outcome : Except CompileFault Unit × CompileState}
    {compiled : Compiled} (answered : answer outcome = .ok compiled) :
    ∃ final, outcome = (.ok (), final) ∧ compiled.network = final.network := by
  obtain ⟨_ | _, final⟩ := outcome
  · cases answered
  · cases answered
    exact ⟨final, rfl, rfl⟩

/-- Every run that compiles has a root. -/
theorem exists_rootOf {name : String} {seed : UInt64} {program : Instruction}
    {compiled : Compiled} (compiles : compile name seed program = .ok compiled) :
    ∃ root, RootOf name seed program compiled root := by
  obtain ⟨final, succeeded, network⟩ := answer_eq_ok compiles
  obtain ⟨root, prepares, watches, builds, instruction, isRoot, rfl⟩ := exists_rootVisit succeeded
  obtain ⟨_, same, faithful, _⟩ :=
    (notes_watched (depthFor program) program).of_runs watches
  rw [List.nil_append] at same
  subst same
  have leads := (isQuiet_prepare _ _ _ _ _ prepares).leadsTo
  refine ⟨root, isRoot, instruction, prepares, faithful root (List.mem_singleton_self root),
    leads.sound (CompileState.sound_start name seed), ?_, ?_, builds, congrArg stateOf builds,
    congrArg stateOf succeeded, network⟩
  · rw [leads.pending]
    rfl
  · rintro source target edge
    obtain ⟨_, found, _⟩ := leads.edges edge
    exact absurd (Network.lt_size_of_layer? found) (Nat.not_lt_zero source)

end Compile

namespace Visit

open Compile

variable {visit : Visit}

private theorem gained_on_trail (Has : CompileState → Prop) {Brings : Visit → Prop}
    {before after : CompileState} {inner : List Visit} (trail : Trail before inner after)
    (steps : ∀ {before after : CompileState}, before.LeadsTo after → Has after → Has before)
    (faithful : ∀ visit ∈ inner, visit.Faithful)
    (each : ∀ visit ∈ inner, visit.before.Sound → Has visit.after → Has visit.before ∨ Brings visit)
    (sound : before.Sound) (has : Has after) : Has before ∨ ∃ visit ∈ inner, Brings visit := by
  induction trail with
  | done => exact .inl has
  | step leads _ inductionHypothesis =>
      exact (inductionHypothesis faithful each (leads.sound sound) has).imp_left (steps leads)
  | visit _ inductionHypothesis =>
      have first := faithful _ List.mem_cons_self
      have restFaithful := fun visit member => faithful visit (List.mem_cons_of_mem _ member)
      have restEach := fun visit member => each visit (List.mem_cons_of_mem _ member)
      have fromRest := inductionHypothesis restFaithful restEach (first.sound sound) has
      rcases fromRest with earlier | ⟨below, member, brings⟩
      · exact (each _ List.mem_cons_self sound earlier).imp_right
          fun brings => ⟨_, List.mem_cons_self, brings⟩
      · exact .inr ⟨below, List.mem_cons_of_mem _ member, brings⟩

def Records (connection : PendingConnect) (visit : Visit) : Prop :=
  visit.instruction = .connect connection.source connection.target ∧
    connection.scope = visit.before.current

/-- Every recorded connection was come to. -/
theorem Faithful.recorded (faithful : visit.Faithful) (sound : visit.before.Sound)
    {connection : PendingConnect} (pending : connection ∈ visit.after.pending.toList) :
    connection ∈ visit.before.pending.toList ∨
      ∃ below, Within below visit ∧ Records connection below := by
  induction faithful with
  | @intro visit unfolds inner inductionHypothesis =>
      have grow : AllGrow visit.inner := fun below member => (inner below member).grows
      obtain ⟨between, trail, closes⟩ := unfolds.closes grow
      have earlier (pending : connection ∈ between.pending.toList) :
          connection ∈ visit.before.pending.toList ∨
            ∃ below, Within below visit ∧ Records connection below := by
        rcases gained_on_trail (fun state => connection ∈ state.pending.toList) trail
          (fun leads has => leads.pending ▸ has) inner inductionHypothesis sound pending with
          old | ⟨below, member, lowest, within, records⟩
        · exact .inl old
        · exact .inr ⟨lowest, .under member within, records⟩
      generalize instructionIs : visit.instruction = instruction at closes
      cases closes with
      | step _ leads => exact earlier (leads.pending ▸ pending)
      | connect settles =>
          obtain ⟨_, recorded⟩ := settles.recorded
          rw [recorded] at pending
          rcases List.mem_append.1 pending with old | new
          · exact earlier old
          · cases List.mem_singleton.1 new
            exact .inr ⟨visit, .self visit, instructionIs, rfl⟩
      | branch _ chooses => exact earlier (chooses.pending ▸ pending)

/-- A visit of a branch that connected the input its condition reads to its own layer. -/
def Conditions (source target : LayerId) (visit : Visit) : Prop :=
  ∃ name test body alternative text condition,
    visit.instruction = .branch name test body alternative ∧
      conditionOf test = .ok (text, condition) ∧ visit.ownLayer? = some target ∧
      (∃ layer thenRoot elseRoot, visit.after.network.layer? target = some layer ∧
        layer.kind = .conditional text thenRoot elseRoot) ∧
      ∃ layer, visit.after.network.layer? source = some layer ∧
        layer.name = condition.ident ∧ layer.kind.isInput = true

/-- Before the final wiring, every edge comes from the condition of a branch. -/
theorem Faithful.conditioned (faithful : visit.Faithful) (sound : visit.before.Sound)
    {source target : LayerId} (edge : visit.after.network.Edge source target) :
    visit.before.network.Edge source target ∨
      ∃ below, Within below visit ∧ Conditions source target below := by
  induction faithful with
  | @intro visit unfolds inner inductionHypothesis =>
      have grow : AllGrow visit.inner := fun below member => (inner below member).grows
      obtain ⟨between, trail, closes⟩ := unfolds.closes grow
      have betweenSound : between.Sound :=
        trail.sound (fun below member => (inner below member).sound) sound
      have earlier (edge : between.network.Edge source target) :
          visit.before.network.Edge source target ∨
            ∃ below, Within below visit ∧ Conditions source target below := by
        rcases gained_on_trail (fun state => state.network.Edge source target) trail
          (fun leads has => leads.edges has) inner inductionHypothesis sound edge with
          old | ⟨below, member, lowest, within, conditions⟩
        · exact .inl old
        · exact .inr ⟨lowest, .under member within, conditions⟩
      generalize instructionIs : visit.instruction = instruction at closes
      cases closes with
      | step _ leads => exact earlier (leads.edges edge)
      | connect settles => exact earlier (settles.edges edge)
      | branch tested chooses =>
          rcases chooses.edges betweenSound edge with old | ⟨rfl, named, isInput⟩
          · exact earlier old
          · obtain ⟨own, layer, found, node⟩ := ownLayer?_of_nodes (trail.grows grow) chooses.nodes
            obtain ⟨input, inputFound, inputName⟩ := named
            obtain ⟨same, sameFound, inputKind⟩ := isInput
            rw [inputFound] at sameFound
            cases sameFound
            have kind := congrArg Layer.kind node
            exact .inr ⟨visit, .self visit, ⟨_, _, _, _, _, _, instructionIs, tested, own,
              ⟨layer, _, _, found, kind⟩, input, inputFound, inputName, inputKind⟩⟩

end Visit

namespace Compile

variable {name : String} {seed : UInt64} {program : Instruction} {compiled : Compiled}

/-- The final wiring wires what was recorded. -/
theorem RootOf.binds {root : Visit} (rootOf : RootOf name seed program compiled root) :
    Binds root.after.pending.toList root.after (bindAll root.after) :=
  binds_bindAll (rootOf.faithful.sound rootOf.sound)

/-- Binding the recorded connections adds no layer. -/
theorem RootOf.nodes {root : Visit} (rootOf : RootOf name seed program compiled root) :
    compiled.network.nodes = root.after.network.nodes := by
  rw [rootOf.network, rootOf.binds.nodes]

/-- What is there at the end of a visit stays in the compiled network. -/
theorem RootOf.grows_after {root visit : Visit} (rootOf : RootOf name seed program compiled root)
    (within : visit.Within root) : visit.after.network.GrowsTo compiled.network := by
  rw [rootOf.network]
  exact (rootOf.faithful.around within).2.network.trans rootOf.binds.grows

/-- A connection that was come to is recorded, in the scope where it stands. -/
theorem RootOf.exists_recorded {root visit : Visit}
    (rootOf : RootOf name seed program compiled root) (within : visit.Within root)
    {source target : String} (connects : visit.instruction = .connect source target) :
    ∃ flagged, ⟨source, target, visit.before.current, flagged⟩ ∈ root.after.pending.toList := by
  have faithful := rootOf.faithful.within within
  have later := (rootOf.faithful.around within).2
  obtain ⟨between, _, closes⟩ := faithful.closes faithful.allGrow
  rw [connects] at closes
  cases closes with
  | step noConnection _ => exact absurd rfl (noConnection source target)
  | connect settles =>
      obtain ⟨flagged, recorded⟩ := settles.recorded
      refine ⟨flagged, later.pending.subset ?_⟩
      rw [recorded]
      exact List.mem_append_right _ (List.mem_singleton_self _)

/-- A connection that was come to is wired, or an error names it. -/
theorem RootOf.wired_or_reported {root visit : Visit}
    (rootOf : RootOf name seed program compiled root) (within : visit.Within root)
    {source target : String} (connects : visit.instruction = .connect source target) :
    (∃ first second, (bindAll root.after).resolve visit.before.current source = some first ∧
        (bindAll root.after).resolve visit.before.current target = some second ∧
        compiled.network.Edge first second) ∨
      ∃ missing, missing ≠ [] ∧ missing.Sublist [source, target] ∧
        ⟨.error, unresolvedMessage source target missing⟩ ∈ compiled.network.issues := by
  have faithful := rootOf.faithful.within within
  have later := (rootOf.faithful.around within).2
  have binds := rootOf.binds
  obtain ⟨between, _, closes⟩ := faithful.closes faithful.allGrow
  rw [connects] at closes
  cases closes with
  | step noConnection _ => exact absurd rfl (noConnection source target)
  | connect settles =>
      rcases settles.settled with ⟨sourceFound, targetFound⟩ | ⟨missing, nonempty, part, issue⟩
      · -- What the connection found where it stands is still found at the end.
        have grows := settles.grows.trans later
        obtain ⟨first, firstFound⟩ := Option.isSome_iff_exists.1 (grows.resolve sourceFound)
        obtain ⟨second, secondFound⟩ := Option.isSome_iff_exists.1 (grows.resolve targetFound)
        obtain ⟨flagged, pending⟩ := rootOf.exists_recorded within connects
        refine .inl ⟨first, second, (binds.resolve _ _).trans firstFound,
          (binds.resolve _ _).trans secondFound, ?_⟩
        rw [rootOf.network]
        exact binds.edges.2 (.inr ⟨_, pending, firstFound, secondFound⟩)
      · refine .inr ⟨missing, nonempty, part, ?_⟩
        rw [rootOf.network, binds.issues]
        exact later.network.issues.subset issue

/-- A connection that was come to is wired wherever its endpoints stand for layers in the end. -/
theorem RootOf.edge_of_resolve {root visit : Visit}
    (rootOf : RootOf name seed program compiled root) (within : visit.Within root)
    {source target : String} (connects : visit.instruction = .connect source target)
    {first second : LayerId}
    (sourceFound : (bindAll root.after).resolve visit.before.current source = some first)
    (targetFound : (bindAll root.after).resolve visit.before.current target = some second) :
    compiled.network.Edge first second := by
  obtain ⟨flagged, pending⟩ := rootOf.exists_recorded within connects
  rw [rootOf.binds.resolve] at sourceFound targetFound
  rw [rootOf.network]
  exact rootOf.binds.edges.2 (.inr ⟨_, pending, sourceFound, targetFound⟩)

/-- Every recorded connection was come to in the run. -/
theorem RootOf.recorded {root : Visit} (rootOf : RootOf name seed program compiled root)
    {connection : PendingConnect} (pending : connection ∈ root.after.pending.toList) :
    ∃ visit, visit.Within root ∧ Visit.Records connection visit := by
  rcases rootOf.faithful.recorded rootOf.sound pending with old | found
  · rw [rootOf.noPending] at old
    cases old
  · exact found

/-- A test of a compilation that passes gives the compilation. -/
theorem exists_compiled {passes : Compiled → Bool}
    (passed : (compile name seed program).toOption.any passes = true) :
    ∃ compiled, compile name seed program = .ok compiled ∧ passes compiled = true := by
  generalize compile name seed program = outcome at passed ⊢
  cases outcome with
  | error _ => cases passed
  | ok compiled => exact ⟨compiled, rfl, passed⟩

/-- A run that passes a test has a root, and a visit where some positions lead. -/
theorem exists_visit_at {path : List Nat} {passes : Visit → Bool}
    (passed : ((rootVisit? name seed program).bind (Visit.below? path)).any passes = true) :
    ∃ root visit, rootVisit? name seed program = some root ∧ Visit.Within visit root ∧
      passes visit = true := by
  obtain ⟨visit, found, passed⟩ := (Option.any_eq_true _ _).1 passed
  obtain ⟨root, isRoot, below⟩ := Option.bind_eq_some_iff.1 found
  exact ⟨root, visit, isRoot, Visit.within_of_below? below, passed⟩

def sizedLayer (layerType name : String) (size : Int) : Instruction :=
  .layer
    { layerType, name, size := some (.literal size), shape := none, activation := none, dim := none
      depth := none, heads := none, dropout := none, params := [], tags := [], inputs := []
      outputs := [], weights := none }

/-- An output is connected before the layers it depends on are declared. -/
def forwardProgram : Instruction :=
  .program [.connect "x" "h", .connect "h" "y", sizedLayer "input" "x" 2, sizedLayer "dense" "h" 3,
    sizedLayer "output" "y" 1]

/-- No connection is lost silently: every one that the run comes to is wired at the end, between the
layers that its endpoints then stand for in its scope, or an error names it. Without errors the
final wiring skips none. -/
theorem connection_wired_or_reported (compiles : compile name seed program = .ok compiled) :
    ∃ root, rootVisit? name seed program = some root ∧ root.instruction = program ∧
      (∀ visit source target, Visit.Within visit root →
        visit.instruction = .connect source target →
          (∃ first second,
            (finalState name seed program).resolve visit.before.current source = some first ∧
              (finalState name seed program).resolve visit.before.current target = some second ∧
              compiled.network.Edge first second) ∨
          ∃ missing, missing ≠ [] ∧ missing.Sublist [source, target] ∧
            ⟨.error, unresolvedMessage source target missing⟩ ∈ compiled.network.issues) ∧
      (compiled.network.hasErrors = false → (finalTally name seed program).skipped = 0) := by
  obtain ⟨root, rootOf⟩ := exists_rootOf compiles
  refine ⟨root, rootOf.isRoot, rootOf.instruction, ?_, ?_⟩
  · intro visit source target within connects
    rw [rootOf.final]
    exact rootOf.wired_or_reported within connects
  · intro noErrors
    rw [finalTally, rootOf.built]
    refine skipped_bindEach _ _ (rootOf.faithful.sound rootOf.sound) ?_
    intro connection pending
    obtain ⟨visit, within, connects, sameScope⟩ := rootOf.recorded pending
    rcases rootOf.wired_or_reported within connects with
      ⟨first, second, firstFound, secondFound, _⟩ | ⟨missing, _, _, issue⟩
    · refine ⟨first, second, ?_⟩
      rw [Resolved, sameScope, ← rootOf.binds.resolve, ← rootOf.binds.resolve]
      exact ⟨firstFound, secondFound⟩
    · have isError := List.any_eq_false.1 noErrors _ issue
      exact absurd rfl isError

/-- Connections that stand before their layers are all wired. -/
theorem forward_connections_wired :
    ∃ compiled, compile "net" 0 forwardProgram = .ok compiled ∧
      compiled.network.hasErrors = false ∧ (finalTally "net" 0 forwardProgram).skipped = 0 := by
  have passed : (compile "net" 0 forwardProgram).toOption.any
      (fun compiled => !compiled.network.hasErrors) = true := by decide +kernel
  obtain ⟨compiled, compiles, noErrors⟩ := exists_compiled passed
  rw [Bool.not_eq_true'] at noErrors
  obtain ⟨_, _, _, _, none⟩ := connection_wired_or_reported compiles
  exact ⟨compiled, compiles, noErrors, none noErrors⟩

/-- No edge is invented: every one comes from a connection whose endpoints spell the names of its
layers, or leads from the input that the condition of a branch reads to the layer of that
branch. -/
theorem edge_has_origin (compiles : compile name seed program = .ok compiled)
    {source target : LayerId} (edge : compiled.network.Edge source target) :
    ∃ root, rootVisit? name seed program = some root ∧
      ((∃ visit start finish, Visit.Within visit root ∧
          visit.instruction = .connect start finish ∧
          (∃ spelled, Name.Spells start spelled ∧ compiled.network.Named spelled source) ∧
          ∃ spelled, Name.Spells finish spelled ∧ compiled.network.Named spelled target) ∨
        ∃ visit branchName test body alternative text condition, Visit.Within visit root ∧
          visit.instruction = .branch branchName test body alternative ∧
          conditionOf test = .ok (text, condition) ∧ visit.ownLayer? = some target ∧
          (∃ layer thenRoot elseRoot, compiled.network.layer? target = some layer ∧
            layer.kind = .conditional text thenRoot elseRoot) ∧
          ∃ layer, compiled.network.layer? source = some layer ∧
            layer.name = condition.ident ∧ layer.kind.isInput = true) := by
  obtain ⟨root, rootOf⟩ := exists_rootOf compiles
  have binds := rootOf.binds
  have sound := rootOf.faithful.sound rootOf.sound
  refine ⟨root, rootOf.isRoot, ?_⟩
  rw [rootOf.network] at edge ⊢
  rcases binds.edges.1 edge with early | ⟨connection, pending, sourceFound, targetFound⟩
  · rcases rootOf.faithful.conditioned rootOf.sound early with old | ⟨visit, within, conditions⟩
    · exact absurd old (rootOf.noEdges source target)
    · obtain ⟨branchName, test, body, alternative, text, condition, branches, tested, own,
        ⟨layer, thenRoot, elseRoot, found, kind⟩, input, inputFound, inputName, isInput⟩ :=
        conditions
      -- Layers keep their names and kinds from the visit of the branch to the end.
      have grows := (rootOf.faithful.around within).2.network.trans binds.grows
      obtain ⟨same, sameFound, sameNode⟩ := grows.layer? found
      obtain ⟨sameInput, sameInputFound, sameInputNode⟩ := grows.layer? inputFound
      exact .inr ⟨visit, branchName, test, body, alternative, text, condition, within, branches,
        tested, own,
        ⟨same, thenRoot, elseRoot, sameFound, (Layer.kind_eq_of_node sameNode).trans kind⟩,
        sameInput, sameInputFound, (Layer.name_eq_of_node sameInputNode).trans inputName,
        (congrArg LayerKind.isInput (Layer.kind_eq_of_node sameInputNode)).trans isInput⟩
  · obtain ⟨visit, within, connects, _⟩ := rootOf.recorded pending
    obtain ⟨sourceName, sourceSpelled, sourceNamed⟩ := sound.resolve sourceFound
    obtain ⟨targetName, targetSpelled, targetNamed⟩ := sound.resolve targetFound
    exact .inl ⟨visit, connection.source, connection.target, within, connects,
      ⟨sourceName, sourceSpelled, binds.grows.named sourceNamed⟩,
      targetName, targetSpelled, binds.grows.named targetNamed⟩

/-- The edge from the input has an origin among the visits of the run. -/
theorem forward_edge_has_origin :
    ∃ compiled, compile "net" 0 forwardProgram = .ok compiled ∧ compiled.network.Edge 0 1 ∧
      (rootVisit? "net" 0 forwardProgram).isSome = true := by
  have passed : (compile "net" 0 forwardProgram).toOption.any
      (fun compiled => compiled.network.hasEdge 0 1) = true := by decide +kernel
  obtain ⟨compiled, compiles, stored⟩ := exists_compiled passed
  have edge := Network.hasEdge_iff.1 stored
  obtain ⟨root, isRoot, _⟩ := edge_has_origin compiles edge
  exact ⟨compiled, compiles, edge, Option.isSome_iff_exists.2 ⟨root, isRoot⟩⟩

/-- Every compiled network is well-formed. -/
theorem wellFormed_of_compile (compiles : compile name seed program = .ok compiled) :
    compiled.network.WellFormed := by
  obtain ⟨root, rootOf⟩ := exists_rootOf compiles
  rw [rootOf.network]
  exact rootOf.binds.sound.network

/-- Layers that are compiled ahead of their declaration make a well-formed network. -/
theorem forward_network_wellFormed :
    ∃ compiled, compile "net" 0 forwardProgram = .ok compiled ∧ compiled.network.size = 3 ∧
      compiled.network.WellFormed := by
  have passed : (compile "net" 0 forwardProgram).toOption.any
      (fun compiled => compiled.network.size == 3) = true := by decide +kernel
  obtain ⟨compiled, compiles, three⟩ := exists_compiled passed
  exact ⟨compiled, compiles, eq_of_beq three, wellFormed_of_compile compiles⟩

end Compile

end NetBlueprint
