import NetBlueprint.Proofs.Compiler.Inputs

/-!
Contract: layers that share a name in one scope.

Names may repeat in a network. In one scope, though, an output is not added under a name that stands
for an output there already. So of two layers that became visible under one name directly after one
another, at most one is an output.

Owns: the layers visible under a name, and which of them may be outputs.
Does not own: the names of layers in different scopes.
-/

namespace NetBlueprint

/-- Whether a number stands for an output is seen at the layers without their edges. -/
theorem Network.isOutputAt_eq (network : Network) (id : LayerId) :
    network.isOutputAt id = network.nodes[id]?.any fun node => node.kind.isOutput := by
  rw [isOutputAt, getElem?_nodes]
  cases network.layer? id <;> rfl

namespace CompileState

variable {state before after : CompileState} {scope : ScopeId} {name key : String}
  {id other : LayerId}

/-- The layers that were made visible in a scope under a name, in their order. -/
def visibleAs (state : CompileState) (scope : ScopeId) (name : String) : List LayerId :=
  match state.scopes[scope]? with
  | some found => ((found.entries.filter fun entry => entry.1 == name).map Prod.snd).reverse
  | none => []

private theorem mem_visibleAs_iff :
    id ∈ state.visibleAs scope name ↔
      ∃ found, state.scopes[scope]? = some found ∧ (name, id) ∈ found.entries := by
  unfold visibleAs
  cases state.scopes[scope]? with
  | none => simp
  | some found => simp

/-- What is visible stays visible. -/
theorem GrowsTo.visibleAs (grows : before.GrowsTo after) (visible : id ∈ before.visibleAs scope name) :
    id ∈ after.visibleAs scope name := by
  rw [mem_visibleAs_iff] at visible ⊢
  obtain ⟨found, isFound, entry⟩ := visible
  obtain ⟨grown, isGrown, _, entries⟩ := grows.scopes isFound
  exact ⟨grown, isGrown, entries.subset entry⟩

private theorem visibleAs_of_scopes (scopes : after.scopes = before.scopes) :
    after.visibleAs scope name = before.visibleAs scope name := by
  rw [visibleAs, visibleAs, scopes]

/-- A scope that is opened shows nothing. -/
theorem visibleAs_entered (state : CompileState) (scope : ScopeId) (name : String) :
    state.entered.visibleAs scope name = state.visibleAs scope name := by
  unfold visibleAs
  rcases scopes_entered state scope with same | ⟨absent, opened⟩
  · rw [same]
  · rw [absent, opened]
    rfl

private theorem visibleAs_registered (state : CompileState) (key : String) (id : LayerId)
    (scope : ScopeId)
    (name : String) :
    (state.registered key id).visibleAs scope name =
      state.visibleAs scope name ++
        if scope = state.current ∧ scope < state.scopes.size ∧ key = name then [id] else [] := by
  unfold visibleAs registered
  dsimp only
  rw [Array.getElem?_modify]
  rcases Nat.lt_or_ge scope state.scopes.size with inside | outside
  · rw [Array.getElem?_eq_getElem inside]
    by_cases here : state.current = scope
    · by_cases same : key = name
      · simp [here, inside, same]
      · simp [here, same]
    · have elsewhere : ¬ scope = state.current := fun same => here same.symm
      simp [here, elsewhere]
  · have nowhere : ¬ scope < state.scopes.size := Nat.not_lt.2 outside
    simp [nowhere]

/-- What a name stands for in the current scope was made visible there last. -/
theorem layer_of_getLast? (last : (state.visibleAs state.current name).getLast? = some id) :
    state.inCurrentScope? name = state.network.layer? id := by
  have lookup : ∀ entries : List (String × LayerId),
      (entries.filter fun entry => entry.1 == name).head?.map Prod.snd = entries.lookup name := by
    intro entries
    induction entries with
    | nil => rfl
    | cons entry rest inductionHypothesis =>
        obtain ⟨key, stored⟩ := entry
        by_cases same : key = name
        · simp [same]
        · have apart : (name == key) = false := beq_eq_false_iff_ne.2 fun isName => same isName.symm
          rw [List.lookup_cons, apart, List.filter_cons_of_neg (by simpa using same)]
          exact inductionHypothesis
  unfold visibleAs at last
  unfold inCurrentScope?
  cases found : state.scopes[state.current]? with
  | none =>
      rw [found] at last
      cases last
  | some current =>
      rw [found] at last
      dsimp only at last ⊢
      rw [List.getLast?_reverse, List.head?_map, lookup] at last
      rw [last, Option.bind_some]

/-- A state in which no two outputs became visible directly after one another in one scope under one
name. -/
structure Separates (state : CompileState) : Prop where
  shares : state.Shares
  known : ∀ {scope name id}, id ∈ state.visibleAs scope name → id < state.network.size
  apart : ∀ scope name, (state.visibleAs scope name).IsChain fun earlier later =>
    ¬ (state.network.isOutputAt earlier = true ∧ state.network.isOutputAt later = true)

private theorem separates_start (name : String) (seed : UInt64) : (start name seed).Separates := by
  have nothing (scope : ScopeId) (key : String) : (start name seed).visibleAs scope key = [] := by
    cases scope <;> rfl
  refine ⟨shares_start name seed, fun member => ?_, fun scope key => ?_⟩
  · rw [nothing] at member
    cases member
  · rw [nothing]
    exact .nil

/-- A step that makes nothing visible keeps outputs apart. -/
theorem Separates.of_same (separates : before.Separates)
    (nodes : after.network.nodes = before.network.nodes)
    (visible : ∀ scope name, after.visibleAs scope name = before.visibleAs scope name)
    (inputCache : after.inputCache = before.inputCache) : after.Separates where
  shares := separates.shares.of_same nodes inputCache
  known member := by
    rw [visible] at member
    rw [← Network.length_nodes, nodes, Network.length_nodes]
    exact separates.known member
  apart scope name := by
    have outputs : after.network.isOutputAt = before.network.isOutputAt := by
      funext id
      rw [Network.isOutputAt_eq, Network.isOutputAt_eq, nodes]
    rw [visible, outputs]
    exact separates.apart scope name

private theorem isChain_registered {network : Network} {visible : List LayerId} {present : Prop}
    [Decidable present]
    (chain : visible.IsChain fun earlier later =>
      ¬ (network.isOutputAt earlier = true ∧ network.isOutputAt later = true))
    (apart : present → ∀ last ∈ visible.getLast?,
      ¬ (network.isOutputAt last = true ∧ network.isOutputAt id = true)) :
    (visible ++ if present then [id] else []).IsChain fun earlier later =>
      ¬ (network.isOutputAt earlier = true ∧ network.isOutputAt later = true) := by
  rw [List.isChain_append]
  split
  · rename_i isPresent
    refine ⟨chain, .singleton id, fun last isLast first isFirst => ?_⟩
    cases isFirst
    exact apart isPresent last isLast
  · exact ⟨chain, .nil, fun _ _ _ => nofun⟩

/-- A known input may become visible anywhere. -/
theorem Separates.registered (separates : state.Separates)
    (known : state.globalInput? name = some id) : (state.registered name id).Separates := by
  obtain ⟨node, found, _, isInput⟩ := separates.shares.named (Table.mem_of_lookup known)
  have noOutput : state.network.isOutputAt id = false := by
    rw [Network.isOutputAt_eq, found, Option.any_some]
    cases kind : node.kind with
    | output => rw [kind] at isInput; cases isInput
    | _ => rfl
  refine ⟨separates.shares.of_same rfl rfl, fun member => ?_, fun scope key => ?_⟩
  · rw [visibleAs_registered, List.mem_append] at member
    rcases member with old | new
    · exact separates.known old
    · split at new
      · rw [List.mem_singleton.1 new, CompileState.registered, ← Network.length_nodes]
        exact (List.getElem?_eq_some_iff.1 found).1
      · cases new
  · rw [visibleAs_registered]
    refine isChain_registered (separates.apart scope key) fun _ _ _ both => ?_
    have isOutput : state.network.isOutputAt id = true := both.2
    rw [noOutput] at isOutput
    cases isOutput

/-- An output may be added where its name does not stand for an output in the current scope. -/
theorem Separates.withLayer (separates : state.Separates) {kind : LayerKind}
    (free : kind.isInput = true → state.globalInput? name = none)
    (apart : kind.isOutput = true → ∀ layer, state.inCurrentScope? name = some layer →
      layer.kind.isOutput = false) : (state.withLayer name kind).Separates := by
  have grows : state.network.GrowsTo (state.withLayer name kind).network :=
    Network.growsTo_addLayer state.network name kind
  have visible (scope : ScopeId) (key : String) :
      (state.withLayer name kind).visibleAs scope key = state.visibleAs scope key ++
        if scope = state.current ∧ scope < state.scopes.size ∧ name = key then
          [state.network.size] else [] :=
    visibleAs_registered { state with network := state.network.addLayer name kind } name
      state.network.size scope key
  refine ⟨separates.shares.withLayer name kind free, fun member => ?_, fun scope key => ?_⟩
  · rw [visible, List.mem_append] at member
    have more : (state.withLayer name kind).network.size = state.network.size + 1 :=
      Network.size_addLayer _ _ _
    rw [more]
    rcases member with old | new
    · exact Nat.lt_succ_of_lt (separates.known old)
    · split at new
      · rw [List.mem_singleton.1 new]
        exact Nat.lt_succ_self _
      · cases new
  · rw [visible]
    have old : (state.visibleAs scope key).IsChain fun earlier later =>
        ¬ ((state.withLayer name kind).network.isOutputAt earlier = true ∧
          (state.withLayer name kind).network.isOutputAt later = true) := by
      refine (separates.apart scope key).imp_of_mem_imp fun _ _ member laterMember chained => ?_
      rwa [grows.isOutputAt (separates.known member),
        grows.isOutputAt (separates.known laterMember)]
    refine isChain_registered old ?_
    rintro ⟨rfl, _, rfl⟩ last isLast ⟨wasOutput, isOutput⟩
    have isNew : kind.isOutput = true := by
      obtain ⟨layer, found, isOutput⟩ := Network.isOutputAt_iff.1 isOutput
      have stored : (state.withLayer name kind).network.layer? state.network.size = some _ :=
        Network.layer?_addLayer_size state.network name kind
      cases stored.symm.trans found
      exact isOutput
    rw [grows.isOutputAt (separates.known (List.mem_of_getLast? isLast))] at wasOutput
    obtain ⟨layer, found, wasOutput⟩ := Network.isOutputAt_iff.1 wasOutput
    have visibleLast := layer_of_getLast? isLast
    rw [apart isNew layer (visibleLast.trans found)] at wasOutput
    cases wasOutput

end CompileState

namespace Compile

open CompileState

variable {before after : CompileState}

/-- Where an interface of its kind is visible, a declaration adds no layer. -/
theorem nodes_of_visible {spec : LayerSpec} (ran : Runs (layer spec) before () after)
    (isInterface : (spec.isInput || spec.isOutput) = true) {found : Layer}
    (visible : before.inCurrentScope? spec.name = some found)
    (same : sameInterface spec found = true) : after.network.nodes = before.network.nodes := by
  obtain ⟨taken, asked, takes, rest⟩ := runs_bind.1 ran
  have quiet := isQuiet_takeAhead _ _ _ _ _ takes
  rcases runs_takeAhead takes with ⟨rfl, _⟩ | ⟨rfl, rfl, _⟩
  · exact (quiet.trans (isQuiet_log _ _ _ _ rest)).nodes
  · have present : ((spec.isInput || spec.isOutput) &&
        (asked.inCurrentScope? spec.name).any (sameInterface spec)) = true := by
      rw [isInterface, visible, Option.any_some, same]
      rfl
    rw [if_neg Bool.false_ne_true] at rest
    have rest := runs_get_bind.1 rest
    rw [if_pos present] at rest
    exact (isQuiet_log _ _ _ _ rest).nodes

private theorem sameInterface_of_isOutput {spec : LayerSpec} {found : Layer}
    (isOutput : spec.isOutput = true) (wasOutput : found.kind.isOutput = true) :
    sameInterface spec found = true := by
  have noInput : spec.isInput = false := by
    rw [LayerSpec.isInput, eq_of_beq isOutput]
    decide
  have wasNoInput : found.kind.isInput = false := by
    cases kind : found.kind with
    | input => rw [kind] at wasOutput; cases wasOutput
    | _ => rfl
  rw [sameInterface, wasNoInput, wasOutput, noInput, isOutput]
  rfl

/-- A declaration adds no output under a name that stands for an output in its scope. -/
theorem separates_of_layer {spec : LayerSpec} (ran : Runs (layer spec) before () after)
    (separates : before.Separates) : after.Separates := by
  have quietly {start : CompileState} (separates : start.Separates) (quiet : start.Quiet after) :
      after.Separates :=
    separates.of_same quiet.nodes (fun _ _ => visibleAs_of_scopes quiet.scopes) quiet.inputCache
  cases layer_outcome ran with
  | passed _ quiet | present _ _ _ _ quiet => exact quietly separates quiet
  | shared _ _ known quiet => exact quietly (separates.registered known) quiet
  | @added kind _ unknown declared quiet =>
      have isDeclared := LayerSpec.isDeclared_of_layerKind declared
      refine quietly (separates.withLayer (fun isInput => unknown ?_)
        fun isOutput found visible => ?_) quiet
      · cases kind with
        | input => exact isDeclared
        | _ => cases isInput
      · have isOutput : spec.isOutput = true := by
          cases kind with
          | output => exact isDeclared
          | _ => cases isOutput
        rw [Bool.eq_false_iff]
        intro wasOutput
        have same := nodes_of_visible ran (by rw [isOutput, Bool.or_true]) visible
          (sameInterface_of_isOutput isOutput wasOutput)
        have more := congrArg List.length (quiet.nodes.symm.trans same)
        rw [nodes_withLayer, List.length_append] at more
        exact absurd more (Nat.succ_ne_self _)

/-- Only a declaration adds an output. -/
theorem OwnStep.separates {instruction : Instruction} {scope : ScopeId}
    (step : OwnStep instruction scope before after)
    (noLayer : ∀ spec, instruction ≠ .layer spec) (separates : before.Separates) :
    after.Separates := by
  cases step with
  | still still =>
      exact separates.of_same still.nodes (fun _ _ => visibleAs_of_scopes still.scopes)
        still.inputCache
  | enters => exact separates.of_same rfl (visibleAs_entered _) rfl
  | shares _ declares => exact absurd declares (noLayer _)
  | makes _ makes =>
      cases makes with
      | layer => exact absurd rfl (noLayer _)
      | autoInput wanted =>
          rw [wantsInput, Bool.and_eq_true, Bool.and_eq_true, Option.isNone_iff_eq_none] at wanted
          exact separates.withLayer
            (fun _ => separates.shares.globalInput?_eq_none wanted.1.2)
            (fun isOutput => by cases isOutput)
      | moduleDef | branch =>
          exact separates.withLayer (fun isInput => by cases isInput)
            (fun isOutput => by cases isOutput)

/-- No visit adds an output under a name that stands for an output in its scope. -/
theorem separates_of_faithful {visit : Visit} (faithful : visit.Faithful) :
    visit.before.Separates → visit.after.Separates := by
  induction faithful with
  | @intro visit unfolds inner inductionHypothesis =>
      by_cases declares : ∃ spec, visit.instruction = .layer spec
      · obtain ⟨spec, declares⟩ := declares
        rw [declares] at unfolds
        generalize visit.inner = below at unfolds
        cases unfolds with
        | layer ran => exact separates_of_layer ran
      · have way := (Visit.Faithful.intro unfolds inner).way
        exact way.keeps (fun step => step.separates fun spec isLayer => declares ⟨spec, isLayer⟩)
          inductionHypothesis

variable {name : String} {seed : UInt64} {program : Instruction} {compiled : Compiled}
  {root : Visit}

private theorem RootOf.separates (rootOf : RootOf name seed program compiled root) :
    root.after.Separates := by
  have quiet := isQuiet_prepare _ _ _ _ _ rootOf.prepared
  exact separates_of_faithful rootOf.faithful ((separates_start name seed).of_same quiet.nodes
    (fun _ _ => visibleAs_of_scopes quiet.scopes) quiet.inputCache)

/-- Every layer became visible under its name in some scope. -/
theorem RootOf.exists_visible (rootOf : RootOf name seed program compiled root) {id : LayerId}
    {layer : Layer} (found : root.after.network.layer? id = some layer) :
    ∃ scope, id ∈ root.after.visibleAs scope layer.name := by
  obtain ⟨visit, within, adds⟩ := rootOf.exists_adds found
  have faithful := rootOf.faithful.within within
  obtain ⟨start, key, kind, _, rfl, here, earlier, later⟩ := adds.exists_step faithful
  have grows := later.trans (rootOf.faithful.around within).2
  obtain ⟨same, isSame, node⟩ :=
    grows.network.layer? (Network.layer?_addLayer_size start.network key kind)
  cases isSame.symm.trans found
  have isNamed : layer.name = key := Layer.name_eq_of_node node
  have inside : start.current < start.scopes.size := by
    rw [here]
    exact Nat.lt_of_lt_of_le (rootOf.inside within) earlier.scopes_size_le
  have visible : start.network.size ∈ (start.withLayer key kind).visibleAs start.current key := by
    have registered := visibleAs_registered
      { start with network := start.network.addLayer key kind } key start.network.size
      start.current key
    rw [if_pos ⟨rfl, inside, rfl⟩] at registered
    exact registered ▸ List.mem_append_right _ (List.mem_singleton.2 rfl)
  rw [isNamed]
  exact ⟨_, grows.visibleAs visible⟩

/-- Between two outputs that became visible in one scope under one name, a layer that is no output
became visible there under this name. -/
theorem RootOf.exists_between (rootOf : RootOf name seed program compiled root) {scope : ScopeId}
    {key : String} {one other : LayerId} (visible : one ∈ root.after.visibleAs scope key)
    (otherVisible : other ∈ root.after.visibleAs scope key)
    (isOutput : root.after.network.isOutputAt one = true)
    (otherIsOutput : root.after.network.isOutputAt other = true) (earlier : one < other) :
    ∃ between, root.after.network.isOutputAt between = false ∧
      [one, between, other].Sublist (root.after.visibleAs scope key) := by
  have chain := rootOf.separates.apart scope key
  have ordered : ((root.after.visibleAs scope key).filter root.after.network.isOutputAt).Pairwise
      (· < ·) := by
    refine (rootOf.housed.ordered scope).sublist (List.Sublist.filter _ ?_)
    unfold visibleAs scopeLayers
    cases root.after.scopes[scope]? with
    | none => exact .slnil
    | some found => exact ((List.filter_sublist).map Prod.snd).reverse
  obtain ⟨front, rest, split⟩ := List.append_of_mem visible
  rw [split] at chain ordered otherVisible ⊢
  -- Outputs became visible in the order of their numbers, so the second stands behind the first.
  have behind : other ∈ rest := by
    rw [List.filter_append, List.filter_cons_of_pos isOutput, List.pairwise_append] at ordered
    rw [List.mem_append, List.mem_cons] at otherVisible
    rcases otherVisible with before | same | behind
    · have swapped := ordered.2.2 other (List.mem_filter.2 ⟨before, otherIsOutput⟩) one
        List.mem_cons_self
      exact absurd earlier (Nat.lt_asymm swapped)
    · exact absurd same (Nat.ne_of_gt earlier)
    · exact behind
  cases rest with
  | nil => cases behind
  | cons between rest =>
      have apart := (List.isChain_append_cons_cons.1 chain).2.1
      have noOutput : root.after.network.isOutputAt between = false := by
        rw [Bool.eq_false_iff]
        exact fun both => apart ⟨isOutput, both⟩
      rcases List.mem_cons.1 behind with rfl | behind
      · rw [noOutput] at otherIsOutput
        cases otherIsOutput
      · refine ⟨between, noOutput, ?_⟩
        have last : [other].Sublist rest := List.singleton_sublist.2 behind
        exact ((last.cons_cons between).cons_cons one).trans (List.sublist_append_right _ _)

end Compile

end NetBlueprint
