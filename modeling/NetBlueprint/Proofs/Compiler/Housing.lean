import NetBlueprint.Proofs.Compiler.Books
import NetBlueprint.Proofs.Graph.Dependencies

/-!
Contract: which scope an output belongs to.

A layer becomes visible in the scope in which it is added, and only inputs become visible in another
scope later. So every output belongs to one scope, and the outputs of a scope stand there in the
order in which they were added. Steps that add no output leave the outputs of every scope as they
are.

Owns: the outputs of a scope, the steps that leave them alone, and the steps that stay in their
scope.
Does not own: which visits add outputs.
-/

namespace NetBlueprint

namespace Network

variable {network earlier later : Network} {id : LayerId}

def isOutputAt (network : Network) (id : LayerId) : Bool :=
  (network.layer? id).any fun layer => layer.kind.isOutput

/-- An output is a layer whose kind is that of an output. -/
theorem isOutputAt_iff :
    network.isOutputAt id = true ↔
      ∃ layer, network.layer? id = some layer ∧ layer.kind.isOutput = true :=
  Option.any_eq_true _ _

/-- A layer that is an output stays one, and no other layer becomes one. -/
theorem GrowsTo.isOutputAt (grows : earlier.GrowsTo later) (inside : id < earlier.size) :
    later.isOutputAt id = earlier.isOutputAt id := by
  obtain ⟨layer, found⟩ := exists_layer?_of_lt inside
  obtain ⟨same, sameFound, sameNode⟩ := grows.layer? found
  rw [Network.isOutputAt, Network.isOutputAt, found, sameFound, Option.any_some, Option.any_some,
    Layer.kind_eq_of_node sameNode]

/-- A root that is chosen stays chosen. -/
theorem GrowsTo.hasRoot (grows : earlier.GrowsTo later) {chooser root : LayerId}
    (chosen : earlier.HasRoot chooser root) : later.HasRoot chooser root := by
  obtain ⟨layer, found, isRoot⟩ := chosen
  obtain ⟨same, sameFound, sameNode⟩ := grows.layer? found
  exact ⟨same, sameFound, Layer.kind_eq_of_node sameNode ▸ isRoot⟩

theorem HasRoot.of_nodes (nodes : later.nodes = earlier.nodes) {chooser root : LayerId}
    (chosen : later.HasRoot chooser root) : earlier.HasRoot chooser root := by
  obtain ⟨layer, found, isRoot⟩ := chosen
  obtain ⟨same, sameFound, sameNode⟩ := layer?_of_nodes nodes found
  exact ⟨same, sameFound, Layer.kind_eq_of_node sameNode ▸ isRoot⟩

/-- One more layer chooses its own roots and no others. -/
theorem hasRoot_addLayer {name : String} {kind : LayerKind} {chooser root : LayerId}
    (chosen : (network.addLayer name kind).HasRoot chooser root) :
    network.HasRoot chooser root ∨ chooser = network.size ∧ root ∈ kind.roots := by
  obtain ⟨layer, found, isRoot⟩ := chosen
  rcases layer?_addLayer found with old | ⟨rfl, rfl⟩
  · exact .inl ⟨layer, old, isRoot⟩
  · exact .inr ⟨rfl, isRoot⟩

end Network

namespace CompileState

variable {state before between after : CompileState} {scope : ScopeId} {id : LayerId}

def parent? (state : CompileState) (scope : ScopeId) : Option ScopeId :=
  state.scopes[scope]?.bind Scope.parent

theorem parent?_entered (state : CompileState) :
    state.entered.parent? state.scopes.size = some state.current := by
  rw [parent?, entered, Array.getElem?_push_size, Option.bind_some]

/-- A scope stays where it was opened. -/
theorem GrowsTo.parent? (grows : before.GrowsTo after) {outer : ScopeId}
    (opened : before.parent? scope = some outer) : after.parent? scope = some outer := by
  obtain ⟨found, isFound, isOuter⟩ := Option.bind_eq_some_iff.1 opened
  obtain ⟨grown, isGrown, sameParent, _⟩ := grows.scopes isFound
  rw [CompileState.parent?, isGrown, Option.bind_some, sameParent, isOuter]

def outputsIn (state : CompileState) (scope : ScopeId) : List LayerId :=
  (state.scopeLayers scope).filter state.network.isOutputAt

theorem firstOutput_eq (state : CompileState) (scope : ScopeId) :
    Compile.firstOutput state scope = (state.outputsIn scope).head? :=
  List.head?_filter.symm

theorem Sound.lt_size (sound : state.Sound) (member : id ∈ state.scopeLayers scope) :
    id < state.network.size := by
  unfold scopeLayers at member
  split at member
  · rename_i found isFound
    obtain ⟨⟨name, same⟩, entry, rfl⟩ := List.mem_map.1 (List.mem_reverse.1 member)
    exact Network.lt_size_of_named (sound.scopes isFound entry)
  · cases member

private theorem Sound.lt_size_of_output (sound : state.Sound)
    (member : id ∈ state.outputsIn scope) :
    id < state.network.size :=
  sound.lt_size (List.mem_filter.1 member).1

/-- Outputs are made visible behind those that were visible before. -/
theorem GrowsTo.outputsIn (grows : before.GrowsTo after) (sound : before.Sound) (scope : ScopeId) :
    before.outputsIn scope <+: after.outputsIn scope := by
  have kept : before.scopeLayers scope <+: after.scopeLayers scope := by
    unfold scopeLayers
    cases found : before.scopes[scope]? with
    | none => exact List.nil_prefix
    | some earlier =>
        obtain ⟨later, isLater, _, entries⟩ := grows.scopes found
        rw [isLater]
        obtain ⟨new, whole⟩ := entries
        dsimp only
        rw [← whole, List.map_append, List.reverse_append]
        exact List.prefix_append _ _
  obtain ⟨rest, whole⟩ := kept
  rw [CompileState.outputsIn, CompileState.outputsIn, ← whole, List.filter_append]
  refine ⟨rest.filter after.network.isOutputAt, ?_⟩
  congr 1
  exact (List.filter_congr fun id member => grows.network.isOutputAt (sound.lt_size member)).symm

/-- A state in which every output belongs to one scope. -/
structure Housed (state : CompileState) : Prop where
  sound : state.Sound
  inputs : ∀ {name id}, (name, id) ∈ state.inputCache →
    ∃ layer, state.network.layer? id = some layer ∧ layer.kind.isInput = true
  apart : ∀ {scope other id}, id ∈ state.outputsIn scope → id ∈ state.outputsIn other →
    scope = other
  ordered : ∀ scope, (state.outputsIn scope).Pairwise (· < ·)

/-- The outputs of every scope are left alone, and no layer chooses a new root. -/
structure Spares (before after : CompileState) : Prop where
  housed : before.Housed → after.Housed
  outputs : before.Housed → ∀ scope, after.outputsIn scope = before.outputsIn scope
  roots : ∀ {chooser root}, after.network.HasRoot chooser root →
    before.network.HasRoot chooser root
  grows : before.GrowsTo after

namespace Spares

theorem refl (state : CompileState) : state.Spares state :=
  ⟨id, fun _ _ => rfl, id, .refl state⟩

theorem trans (earlier : before.Spares between) (later : between.Spares after) :
    before.Spares after where
  housed := later.housed ∘ earlier.housed
  outputs housed scope :=
    (later.outputs (earlier.housed housed) scope).trans (earlier.outputs housed scope)
  roots := earlier.roots ∘ later.roots
  grows := earlier.grows.trans later.grows

end Spares

/-- What keeps the outputs keeps them in order and apart. -/
theorem Housed.of_outputs (housed : before.Housed) (sound : after.Sound)
    (inputs : ∀ {name id}, (name, id) ∈ after.inputCache →
      ∃ layer, after.network.layer? id = some layer ∧ layer.kind.isInput = true)
    (outputs : ∀ scope, after.outputsIn scope = before.outputsIn scope) : after.Housed where
  sound := sound
  inputs := inputs
  apart {scope other id} member otherMember := by
    rw [outputs] at member otherMember
    exact housed.apart member otherMember
  ordered scope := by
    rw [outputs]
    exact housed.ordered scope

/-- Layers and scopes are as before. -/
theorem spares_of_nodes (grows : before.GrowsTo after) (sound : before.Sound → after.Sound)
    (nodes : after.network.nodes = before.network.nodes) (scopes : after.scopes = before.scopes)
    (inputCache : after.inputCache = before.inputCache) : before.Spares after := by
  have outputs (housed : before.Housed) (scope : ScopeId) :
      after.outputsIn scope = before.outputsIn scope := by
    have layers : after.scopeLayers scope = before.scopeLayers scope := by
      rw [scopeLayers, scopes]
      rfl
    rw [outputsIn, layers, outputsIn]
    exact List.filter_congr fun id member =>
      grows.network.isOutputAt (housed.sound.lt_size member)
  refine ⟨fun housed => housed.of_outputs (sound housed.sound) (fun entry => ?_) (outputs housed),
    outputs, .of_nodes nodes, grows⟩
  rw [inputCache] at entry
  exact grows.network.ofKind (housed.inputs entry)

/-- A quiet step leaves the outputs alone. -/
theorem Quiet.spares (quiet : before.Quiet after) : before.Spares after :=
  spares_of_nodes quiet.grows quiet.leadsTo.sound quiet.nodes quiet.scopes quiet.inputCache

theorem Quiet.outputsIn (quiet : before.Quiet after) (scope : ScopeId) :
    after.outputsIn scope = before.outputsIn scope := by
  have layers : after.scopeLayers scope = before.scopeLayers scope := by
    rw [scopeLayers, quiet.scopes]
    rfl
  have outputs : after.network.isOutputAt = before.network.isOutputAt := by
    funext id
    rw [Network.isOutputAt, Network.layer?, quiet.layers]
    rfl
  rw [CompileState.outputsIn, layers, outputs]
  rfl

/-! ## Steps that add layers or make them visible -/

private theorem scopeLayers_registered (state : CompileState) (name : String) (id : LayerId)
    (scope : ScopeId) :
    (state.registered name id).scopeLayers scope =
      state.scopeLayers scope ++
        if scope = state.current ∧ scope < state.scopes.size then [id] else [] := by
  unfold scopeLayers registered
  dsimp only
  rw [Array.getElem?_modify]
  rcases Nat.lt_or_ge scope state.scopes.size with inside | outside
  · rw [Array.getElem?_eq_getElem inside]
    by_cases here : state.current = scope
    · rw [if_pos here, if_pos ⟨here.symm, inside⟩]
      simp
    · rw [if_neg here, if_neg fun both => here both.1.symm, List.append_nil]
  · have nowhere : ¬ (scope = state.current ∧ scope < state.scopes.size) :=
      fun both => Nat.not_lt.2 outside both.2
    rw [Array.getElem?_eq_none outside, if_neg nowhere, Option.map_none, ite_self]
    rfl

/-- A layer that is no output may be made visible a second time. -/
theorem spares_registered {name : String}
    (isInput : state.Housed → ∃ layer, state.network.layer? id = some layer ∧
      layer.kind.isInput = true)
    (named : state.Sound → state.network.Named name id) :
    state.Spares (state.registered name id) := by
  have leads := leadsTo_registered named
  have outputs (housed : state.Housed) (scope : ScopeId) :
      (state.registered name id).outputsIn scope = state.outputsIn scope := by
    obtain ⟨layer, found, input⟩ := isInput housed
    have noOutput : state.network.isOutputAt id = false := by
      rw [Network.isOutputAt, found, Option.any_some]
      cases kind : layer.kind with
      | output => rw [kind] at input; cases input
      | _ => rfl
    rw [outputsIn, scopeLayers_registered, List.filter_append]
    have nothing : (if scope = state.current ∧ scope < state.scopes.size then [id] else []).filter
        state.network.isOutputAt = [] := by
      split
      · rw [List.filter_cons, noOutput]
        rfl
      · rfl
    exact (congrArg _ nothing).trans (List.append_nil _)
  exact ⟨fun housed => housed.of_outputs (leads.sound housed.sound) housed.inputs (outputs housed),
    outputs, fun chosen => chosen, leads.grows⟩

/-- A layer comes behind the outputs of its scope if it is one. -/
theorem outputsIn_withLayer (sound : state.Sound) (name : String) (kind : LayerKind)
    (scope : ScopeId) :
    (state.withLayer name kind).outputsIn scope =
      state.outputsIn scope ++
        if scope = state.current ∧ scope < state.scopes.size ∧ kind.isOutput = true then
          [state.network.size] else [] := by
  have layers : (state.withLayer name kind).scopeLayers scope =
      state.scopeLayers scope ++
        if scope = state.current ∧ scope < state.scopes.size then [state.network.size] else [] :=
    scopeLayers_registered _ name state.network.size scope
  have old : (state.scopeLayers scope).filter (state.withLayer name kind).network.isOutputAt =
      state.outputsIn scope :=
    List.filter_congr fun id member =>
      (Network.growsTo_addLayer state.network name kind).isOutputAt (sound.lt_size member)
  have new : (state.withLayer name kind).network.isOutputAt state.network.size =
      kind.isOutput := by
    have found : (state.withLayer name kind).network.layer? state.network.size = some _ :=
      Network.layer?_addLayer_size state.network name kind
    rw [Network.isOutputAt, found, Option.any_some]
  rw [outputsIn, layers, List.filter_append, old]
  congr 1
  by_cases here : scope = state.current ∧ scope < state.scopes.size
  · rw [if_pos here, List.filter_cons, new]
    cases kind.isOutput <;> simp [here.1, here.1 ▸ here.2]
  · rw [if_neg here, if_neg fun both => here ⟨both.1, both.2.1⟩]
    rfl

private theorem inputs_withLayer (housed : state.Housed) (name : String) (kind : LayerKind)
    {key : String}
    (entry : (key, id) ∈ (state.withLayer name kind).inputCache) :
    ∃ layer, (state.withLayer name kind).network.layer? id = some layer ∧
      layer.kind.isInput = true := by
  have grows : state.network.GrowsTo (state.withLayer name kind).network :=
    Network.growsTo_addLayer state.network name kind
  unfold withLayer at entry
  dsimp only at entry
  split at entry
  · rename_i isInput
    rcases mem_offered entry with old | ⟨_, rfl⟩
    · exact grows.ofKind (housed.inputs old)
    · exact ⟨_, Network.layer?_addLayer_size state.network name kind, isInput⟩
  · exact grows.ofKind (housed.inputs entry)

/-- An output that is added belongs to the current scope, behind the outputs that are there. -/
theorem Housed.withLayer (housed : state.Housed) (name : String) {kind : LayerKind}
    (accepted : state.network.Accepts kind) : (state.withLayer name kind).Housed where
  sound := (leadsTo_withLayer name accepted).sound housed.sound
  inputs := inputs_withLayer housed name kind
  apart {scope other id} member otherMember := by
    rw [outputsIn_withLayer housed.sound, List.mem_append] at member otherMember
    rcases member with old | new <;> rcases otherMember with otherOld | otherNew
    · exact housed.apart old otherOld
    · split at otherNew
      · cases List.mem_singleton.1 otherNew
        exact absurd (housed.sound.lt_size_of_output old) (Nat.lt_irrefl _)
      · cases otherNew
    · split at new
      · cases List.mem_singleton.1 new
        exact absurd (housed.sound.lt_size_of_output otherOld) (Nat.lt_irrefl _)
      · cases new
    · split at new
      · rename_i here
        split at otherNew
        · rename_i there
          rw [here.1, there.1]
        · cases otherNew
      · cases new
  ordered scope := by
    rw [outputsIn_withLayer housed.sound, List.pairwise_append]
    refine ⟨housed.ordered scope, ?_, fun id member other otherMember => ?_⟩
    · split
      · exact List.pairwise_singleton _ _
      · exact .nil
    · split at otherMember
      · cases List.mem_singleton.1 otherMember
        exact housed.sound.lt_size_of_output member
      · cases otherMember

private theorem spares_withLayer (name : String) {kind : LayerKind}
    (accepted : state.network.Accepts kind)
    (noOutput : kind.isOutput = false) (noRoots : kind.roots = []) :
    state.Spares (state.withLayer name kind) where
  housed housed := housed.withLayer name accepted
  outputs housed scope := by
    rw [outputsIn_withLayer housed.sound, noOutput]
    simp
  roots chosen := by
    rcases Network.hasRoot_addLayer chosen with old | ⟨_, isRoot⟩
    · exact old
    · rw [noRoots] at isRoot
      cases isRoot
  grows := (leadsTo_withLayer name accepted).grows

/-- A scope that was there before another one was opened is as it was, and the one that is opened
was not there and is empty. -/
theorem scopes_entered (state : CompileState) (scope : ScopeId) :
    state.entered.scopes[scope]? = state.scopes[scope]? ∨
      state.scopes[scope]? = none ∧
        state.entered.scopes[scope]? = some ⟨some state.current, []⟩ := by
  rw [entered, Array.getElem?_push]
  by_cases new : scope = state.scopes.size
  · rw [if_pos new, Array.getElem?_eq_none (Nat.le_of_eq new.symm)]
    exact .inr ⟨rfl, rfl⟩
  · exact .inl (if_neg new)

/-- A scope that is opened is empty. -/
theorem scopeLayers_entered (state : CompileState) (scope : ScopeId) :
    state.entered.scopeLayers scope = state.scopeLayers scope := by
  unfold scopeLayers
  rcases scopes_entered state scope with same | ⟨absent, opened⟩
  · rw [same]
  · rw [absent, opened]
    rfl

/-- A scope that is opened has no outputs. -/
theorem outputsIn_entered (state : CompileState) (scope : ScopeId) :
    state.entered.outputsIn scope = state.outputsIn scope := by
  rw [outputsIn, scopeLayers_entered]
  rfl

theorem outputsIn_of_size_le (outside : state.scopes.size ≤ scope) :
    state.outputsIn scope = [] := by
  rw [outputsIn, scopeLayers, Array.getElem?_eq_none outside]
  rfl

private theorem spares_entered (state : CompileState) : state.Spares state.entered where
  housed housed := housed.of_outputs ((leadsTo_entered state).sound housed.sound) housed.inputs
    state.outputsIn_entered
  outputs _ := state.outputsIn_entered
  roots := id
  grows := (leadsTo_entered state).grows

/-- At first there are no outputs. -/
theorem outputsIn_start (name : String) (seed : UInt64) (scope : ScopeId) :
    (start name seed).outputsIn scope = [] := by
  unfold outputsIn scopeLayers
  cases scope <;> rfl

theorem housed_start (name : String) (seed : UInt64) : (start name seed).Housed where
  sound := sound_start name seed
  inputs entry := by cases entry
  apart member := by
    rw [outputsIn_start] at member
    cases member
  ordered scope := by
    rw [outputsIn_start]
    exact .nil

end CompileState

namespace Compile

open CompileState

variable {before after : CompileState}

/-! ## Steps that leave outputs alone -/

private theorem spares_of_autoInput {name : String} (ran : Runs (autoInput name) before () after) :
    before.Spares after := by
  rcases runs_autoInput ran with ⟨_, quiet⟩ | ⟨_, rfl⟩
  · have leaf : (LayerKind.input (some 1) none).IsLeaf := ⟨rfl, rfl, rfl, trivial⟩
    have accepted := Network.accepts_of_isLeaf leaf before.network
    exact (spares_withLayer name accepted rfl rfl).trans quiet.spares
  · exact .refl _

theorem spares_of_startConnect {source target : String} {scope : ScopeId}
    (ran : Runs (startConnect source target) before scope after) : before.Spares after :=
  spares_of_autoInput (runs_autoInput_of_startConnect ran).1

/-- Recording a connection leaves the layers and the tables that find them as they are. -/
theorem same_of_finishConnect {scope : ScopeId} {source target : String}
    (ran : Runs (finishConnect scope source target) before () after) :
    after.network.nodes = before.network.nodes ∧ after.scopes = before.scopes ∧
      after.inputCache = before.inputCache := by
  have rest := runs_get_bind.1 ran
  obtain ⟨_, recorded, records, outcome⟩ := runs_bind.1 rest
  have same := runs_modify.1 records
  split at outcome
  · have quiet := isQuiet_log _ _ _ _ outcome
    rw [quiet.nodes, quiet.scopes, quiet.inputCache, same]
    exact ⟨rfl, rfl, rfl⟩
  · obtain ⟨_, logged, logs, issued⟩ := runs_bind.1 outcome
    have quiet := isQuiet_log _ _ _ _ logs
    rw [runs_modify.1 issued]
    exact ⟨quiet.nodes.trans (by rw [same]), quiet.scopes.trans (by rw [same]),
      quiet.inputCache.trans (by rw [same])⟩

theorem spares_of_finishConnect {scope : ScopeId} {source target : String}
    (ran : Runs (finishConnect scope source target) before () after) : before.Spares after := by
  have settles := settles_of_finishConnect ran
  obtain ⟨nodes, scopes, inputCache⟩ := same_of_finishConnect ran
  exact spares_of_nodes settles.grows settles.sound nodes scopes inputCache

theorem spares_of_finishModule {name : String} {gathered : List LayerId}
    (accepted : before.network.Accepts (.composite gathered))
    (ran : Runs (finishModule name gathered) before () after) : before.Spares after :=
  (spares_withLayer name accepted rfl rfl).trans (runs_finishModule ran).spares

/-- A branch is entered in a scope of its own. -/
theorem scope_of_enterBranch {label : String} {body : List Instruction} {opened : OpenBranch}
    (ran : Runs (enterBranch label body) before opened after) :
    opened.scope = before.scopes.size ∧ after.current = opened.scope ∧
      after.scopes.size = opened.scope + 1 := by
  obtain ⟨_, drawn, _, draws, _, rfl, rfl⟩ := runs_enterBranch ran
  rw [← (draws_of_freshSuffix draws).quiet.scopes]
  exact ⟨rfl, rfl, Array.size_push _⟩

/-- The scope of a branch is opened in the scope in which the branch is entered. -/
theorem parent_of_enterBranch {label : String} {body : List Instruction} {opened : OpenBranch}
    (ran : Runs (enterBranch label body) before opened after) :
    after.parent? before.scopes.size = some before.current := by
  obtain ⟨_, drawn, _, draws, _, _, rfl⟩ := runs_enterBranch ran
  rw [← (draws_of_freshSuffix draws).quiet.scopes, parent?_entered,
    keeps_freshSuffix steady_current _ _ _ _ draws]

theorem spares_of_enterBranch {label : String} {body : List Instruction} {opened : OpenBranch}
    (ran : Runs (enterBranch label body) before opened after) : before.Spares after := by
  obtain ⟨_, drawn, _, draws, _, _, rfl⟩ := runs_enterBranch ran
  exact (draws_of_freshSuffix draws).quiet.spares.trans (spares_entered drawn)

/-- Behind the layer that chooses between two branches nothing is added. -/
theorem same_of_finishBranch {plan : BranchPlan} {thenRoot elseRoot : Option LayerId}
    (ran : Runs (finishBranch plan thenRoot elseRoot) before () after) :
    ∃ chosen, chosen = before.withLayer plan.layerName (.conditional plan.text thenRoot elseRoot) ∧
      chosen.GrowsTo after ∧ (chosen.Sound → after.Sound) ∧
      after.network.nodes = chosen.network.nodes ∧ after.scopes = chosen.scopes ∧
      after.inputCache = chosen.inputCache := by
  obtain ⟨_, _, adds, rest⟩ := runs_bind.1 ran
  obtain ⟨rfl, rfl⟩ := runs_addLayer.1 adds
  obtain ⟨_, wired, wires, logged⟩ := runs_bind.1 rest
  have quiet := isQuiet_log _ _ _ _ logged
  refine ⟨_, rfl, ?_⟩
  rcases runs_wireCondition wires with rfl | ⟨source, isNew, network, _, _, connected, rfl⟩
  · exact ⟨quiet.grows, quiet.leadsTo.sound, quiet.nodes, quiet.scopes, quiet.inputCache⟩
  · have connects := Network.connects_of_connect connected
    refine ⟨(grows_network connects.grows).trans quiet.grows, fun sound => ?_,
      quiet.nodes.trans connects.nodes, quiet.scopes, quiet.inputCache⟩
    exact quiet.leadsTo.sound (sound_network sound connects.grows
      (sound.network.connect connected) (sound.readable.of_nodes connects.nodes))

/-- The layer of a branch leaves the outputs of every scope alone. -/
theorem spares_of_finishBranch {plan : BranchPlan} {thenRoot elseRoot : Option LayerId}
    (ran : Runs (finishBranch plan thenRoot elseRoot) before () after) :
    (before.withLayer plan.layerName (.conditional plan.text thenRoot elseRoot)).Spares after := by
  obtain ⟨_, rfl, grows, sound, nodes, scopes, inputCache⟩ := same_of_finishBranch ran
  exact spares_of_nodes grows sound nodes scopes inputCache

inductive LayerOutcome (spec : LayerSpec) (before after : CompileState) : Prop where
  | passed (waits : before.waits spec.name (.layer spec) = true) (quiet : before.Quiet after)
  | present {found : Layer} (inTurn : before.waits spec.name (.layer spec) = false)
      (isInterface : (spec.isInput || spec.isOutput) = true)
      (visible : before.inCurrentScope? spec.name = some found)
      (same : sameInterface spec found = true) (quiet : before.Quiet after)
  | shared {id : LayerId} (inTurn : before.waits spec.name (.layer spec) = false)
      (isInput : spec.isInput = true)
      (known : before.globalInput? spec.name = some id)
      (quiet : (before.registered spec.name id).Quiet after)
  | added {kind : LayerKind} (inTurn : before.waits spec.name (.layer spec) = false)
      (unknown : spec.isInput = true → before.globalInput? spec.name = none)
      (declared : spec.layerKind = .ok kind)
      (quiet : (before.withLayer spec.name kind).Quiet after)

/-- A declaration comes to one of these outcomes. -/
theorem layer_outcome {spec : LayerSpec} (ran : Runs (layer spec) before () after) :
    LayerOutcome spec before after := by
  have added {start : CompileState} (adds : Runs (newLayer spec) start () after) :
      ∃ kind, spec.layerKind = .ok kind ∧ (start.withLayer spec.name kind).Quiet after := by
    obtain ⟨kind, declared, rfl⟩ := runs_newLayer.1 adds
    exact ⟨kind, declared, quiet_logged _ _⟩
  obtain ⟨taken, asked, takes, rest⟩ := runs_bind.1 ran
  have quiet := isQuiet_takeAhead _ _ _ _ _ takes
  have waits := taken_eq_waits takes
  rcases runs_takeAhead takes with ⟨rfl, _⟩ | ⟨rfl, rfl, _⟩
  · exact .passed waits.symm (quiet.trans (isQuiet_log _ _ _ _ rest))
  rw [if_neg Bool.false_ne_true] at rest
  have rest := runs_get_bind.1 rest
  split at rest
  · rename_i isPresent
    rw [Bool.and_eq_true, Option.any_eq_true] at isPresent
    obtain ⟨isInterface, found, visible, same⟩ := isPresent
    exact .present waits.symm isInterface visible same (isQuiet_log _ _ _ _ rest)
  split at rest
  · rename_i isInput
    have rest := runs_get_bind.1 rest
    split at rest
    · rename_i id known
      obtain ⟨_, _, shares, logs⟩ := runs_bind.1 rest
      obtain rfl := runs_modify.1 shares
      exact .shared waits.symm isInput known (isQuiet_log _ _ _ _ logs)
    · rename_i unknown
      obtain ⟨kind, declared, quiet⟩ := added rest
      exact .added waits.symm (fun _ => unknown) declared quiet
  · rename_i noInput
    obtain ⟨kind, declared, quiet⟩ := added rest
    exact .added waits.symm (fun isInput => absurd isInput noInput) declared quiet

/-- A declaration adds one layer in the current scope, or leaves outputs and layers alone. -/
theorem layer_cases {spec : LayerSpec} (ran : Runs (layer spec) before () after) :
    (before.Spares after ∧ after.network.nodes = before.network.nodes) ∨
      ∃ kind, kind.IsLeaf ∧ (before.withLayer spec.name kind).Quiet after := by
  cases layer_outcome ran with
  | passed _ quiet | present _ _ _ _ quiet => exact .inl ⟨quiet.spares, quiet.nodes⟩
  | shared _ _ known quiet =>
      have spares := spares_registered (fun housed : before.Housed => housed.inputs
        (Table.mem_of_lookup known)) fun sound => sound.globalInput? known
      exact .inl ⟨spares.trans quiet.spares, quiet.nodes⟩
  | added _ _ declared quiet =>
      exact .inr ⟨_, (LayerSpec.isDeclared_of_layerKind declared).isLeaf, quiet⟩

/-! ## Steps that stay in their scope -/

theorem keepsScope_takeAhead (name : String) (instruction : Instruction) :
    Keeps current (takeAhead name instruction) := by
  intro before taken after ran
  have rest := runs_get_bind.1 ran
  split at rest
  · obtain ⟨_, _, replaced, last⟩ := runs_bind.1 rest
    rw [(runs_pure.1 last).2, runs_set.1 replaced]
  · rw [(runs_pure.1 rest).2]

theorem keepsScope_layer (spec : LayerSpec) : Keeps current (layer spec) := by
  refine keeps_bind (keepsScope_takeAhead _ _) fun taken => ?_
  split
  · exact keeps_log steady_current _
  refine keeps_get_bind fun _ => ?_
  split
  · exact keeps_log steady_current _
  split
  · refine keeps_get_bind fun _ => ?_
    split
    · exact keeps_bind (keeps_modify fun _ => rfl) fun _ => keeps_log steady_current _
    · exact keeps_newLayer steady_current spec
  · exact keeps_newLayer steady_current spec

/-- The scope that is left for is the one in which the branch was entered. -/
theorem outer_of_enterBranch {label : String} {body : List Instruction} {opened : OpenBranch}
    (ran : Runs (enterBranch label body) before opened after) : opened.outer = before.current := by
  obtain ⟨_, drawn, _, draws, _, rfl, _⟩ := runs_enterBranch ran
  exact keeps_freshSuffix steady_current _ _ _ _ draws

theorem current_of_leaveBranch {opened : OpenBranch} {root : Option LayerId}
    (ran : Runs (leaveBranch opened) before root after) : after.current = opened.outer := by
  obtain ⟨_, turned, turns, rest⟩ := runs_bind.1 ran
  have last := runs_get_bind.1 rest
  obtain ⟨_, rfl⟩ := runs_pure.1 last
  rw [runs_modify.1 turns]

end Compile

end NetBlueprint
