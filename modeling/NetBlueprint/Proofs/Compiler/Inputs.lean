import NetBlueprint.Proofs.Compiler.OwnSteps

/-!
Contract: every input exists once.

An input is added by a declaration, in its order or ahead of it, or for an endpoint of a connection
that stands for an auto-input. A declaration first asks for a known input of its name, a connection
for any layer of its name. As all inputs are known under their names, neither adds a second one.

Owns: that all inputs are known, and that no two share a name.
-/

namespace NetBlueprint

namespace CompileState

/-- All inputs are known under their names, and whatever is known under a name is an input of that
name. -/
structure Shares (state : CompileState) : Prop where
  known : ∀ {id : LayerId} {node : Layer}, state.network.nodes[id]? = some node →
    node.kind.isInput = true → state.globalInput? node.name = some id
  named : ∀ {name : String} {id : LayerId}, (name, id) ∈ state.inputCache →
    ∃ node, state.network.nodes[id]? = some node ∧ node.name = name ∧ node.kind.isInput = true

variable {before after state : CompileState}

theorem shares_start (name : String) (seed : UInt64) : (start name seed).Shares where
  known found := by cases found
  named entry := by cases entry

theorem Shares.of_same (shares : before.Shares)
    (nodes : after.network.nodes = before.network.nodes)
    (inputCache : after.inputCache = before.inputCache) : after.Shares where
  known found isInput := by
    rw [nodes] at found
    rw [globalInput?, inputCache]
    exact shares.known found isInput
  named entry := by
    rw [inputCache] at entry
    rw [nodes]
    exact shares.named entry

private theorem node_withLayer {name : String} {kind : LayerKind} {id : LayerId} {node : Layer}
    (found : (state.withLayer name kind).network.nodes[id]? = some node) :
    state.network.nodes[id]? = some node ∨
      id = state.network.size ∧ node = ⟨state.network.size, name, kind, [], []⟩ := by
  rw [nodes_withLayer, List.getElem?_append, Network.length_nodes] at found
  split at found
  · exact .inl found
  · rename_i outside
    obtain ⟨first, same⟩ := List.getElem?_eq_some_iff.1 found
    rw [List.getElem_singleton] at same
    rw [List.length_singleton, Nat.lt_one_iff, Nat.sub_eq_zero_iff_le] at first
    exact .inr ⟨Nat.le_antisymm first (Nat.le_of_not_lt outside), same.symm⟩

/-- An input may be added under a name under which none is known. -/
theorem Shares.withLayer (shares : state.Shares) (name : String) (kind : LayerKind)
    (free : kind.isInput = true → state.globalInput? name = none) :
    (state.withLayer name kind).Shares where
  known {id node} found isInput := by
    rw [globalInput?, CompileState.withLayer]
    dsimp only
    rcases node_withLayer found with old | ⟨rfl, rfl⟩
    · have known := shares.known old isInput
      split
      · exact Table.lookup_of_prefix (prefix_offered _ _ _) known
      · exact known
    · rw [if_pos isInput]
      exact lookup_offered_self (free isInput)
  named {key id} entry := by
    have stored : (state.withLayer name kind).network.nodes[state.network.size]? =
        some ⟨state.network.size, name, kind, [], []⟩ := by
      rw [nodes_withLayer, ← Network.length_nodes, List.getElem?_concat_length]
    have kept (old : (key, id) ∈ state.inputCache) :
        ∃ node, (state.withLayer name kind).network.nodes[id]? = some node ∧ node.name = key ∧
          node.kind.isInput = true := by
      obtain ⟨node, found, isNamed⟩ := shares.named old
      refine ⟨node, ?_, isNamed⟩
      rw [nodes_withLayer, List.getElem?_append_left (List.getElem?_eq_some_iff.1 found).1]
      exact found
    rw [CompileState.withLayer] at entry
    dsimp only at entry
    split at entry
    · rename_i isInput
      rcases mem_offered entry with old | ⟨rfl, rfl⟩
      · exact kept old
      · exact ⟨_, stored, rfl, isInput⟩
    · exact kept entry

/-- No input is known under a name that no layer has. -/
theorem Shares.globalInput?_eq_none (shares : state.Shares) {scope : ScopeId} {name : String}
    (unresolved : state.resolveExact scope name = none) : state.globalInput? name = none := by
  rw [Option.eq_none_iff_forall_ne_some]
  intro id known
  obtain ⟨node, found, isNamed, _⟩ := shares.named (Table.mem_of_lookup known)
  rw [Network.getElem?_nodes, Option.map_eq_some_iff] at found
  obtain ⟨layer, isFound, rfl⟩ := found
  exact not_named_of_resolveExact unresolved id ⟨layer, isFound, isNamed⟩

end CompileState

namespace Compile

open CompileState

/-- No step of a visit adds an input that exists. -/
theorem OwnStep.keeps_shares {instruction : Instruction} {scope : ScopeId} {before after : CompileState}
    (step : OwnStep instruction scope before after) (shares : before.Shares) : after.Shares := by
  cases step with
  | still still => exact shares.of_same still.nodes still.inputCache
  | enters => exact shares.of_same rfl rfl
  | shares => exact shares.of_same rfl rfl
  | @makes _ kind _ makes =>
      refine shares.withLayer _ _ fun isInput => ?_
      cases makes with
      | layer declared unknown =>
          have isDeclared := LayerSpec.isDeclared_of_layerKind declared
          cases kind with
          | input _ _ => exact unknown isDeclared
          | _ => cases isInput
      | autoInput wanted =>
          rw [wantsInput, Bool.and_eq_true, Bool.and_eq_true, Option.isNone_iff_eq_none] at wanted
          exact shares.globalInput?_eq_none wanted.1.2
      | moduleDef | branch => cases isInput

end Compile

namespace Network

def inputs (network : Network) : List Layer :=
  network.layers.toList.filter fun layer => layer.kind.isInput

/-- Layers with different names are all kept. -/
theorem firstOfNames_of_nodup {layers : List Layer} : ∀ {seen : List String},
    (∀ layer ∈ layers, layer.name ∉ seen) → (layers.map Layer.name).Nodup →
      firstOfNames seen layers = layers := by
  induction layers with
  | nil => exact fun _ _ => rfl
  | cons layer rest inductionHypothesis =>
      intro seen unseen distinct
      obtain ⟨headUnseen, tailUnseen⟩ := List.forall_mem_cons.1 unseen
      obtain ⟨headApart, tailDistinct⟩ := List.nodup_cons.1 distinct
      rw [firstOfNames, if_neg (by rwa [List.contains_iff_mem]),
        inductionHypothesis (fun other member => ?_) tailDistinct]
      rw [List.mem_cons, not_or]
      refine ⟨fun same => headApart ?_, tailUnseen other member⟩
      rw [← same]
      exact List.mem_map_of_mem member

/-- Where inputs are told apart by their names, all of them are listed. -/
theorem inputLayers_of_nodup {network : Network}
    (distinct : (network.inputs.map Layer.name).Nodup) :
    network.inputLayers = network.inputs.map Layer.id := by
  rw [inputLayers, ← inputs, firstOfNames_of_nodup (fun _ _ => List.not_mem_nil) distinct]

end Network

namespace Compile

variable {name : String} {seed : UInt64} {program : Instruction} {compiled : Compiled}

/-- Where all inputs are known, they are told apart by their names. -/
theorem nodup_inputs_of_shares {state : CompileState} (shares : state.Shares) :
    state.network.nodes.Pairwise fun first second =>
      first.kind.isInput = true → second.kind.isInput = true → first.name ≠ second.name := by
  rw [List.pairwise_iff_getElem]
  intro earlier later earlierInside laterInside before firstInput secondInput sameName
  have first := shares.known (List.getElem?_eq_getElem earlierInside) firstInput
  have second := shares.known (List.getElem?_eq_getElem laterInside) secondInput
  rw [sameName, second] at first
  have same : later = earlier := Option.some.inj first
  omega

private theorem nodup_inputs {network : Network}
    (apart : network.nodes.Pairwise fun first second =>
      first.kind.isInput = true → second.kind.isInput = true → first.name ≠ second.name) :
    (network.inputs.map Layer.name).Nodup := by
  rw [Network.nodes, List.pairwise_map] at apart
  rw [List.Nodup, List.pairwise_map, Network.inputs, List.pairwise_filter]
  exact apart

/-- All inputs of a run are known, wherever a visit starts and ends. -/
theorem RootOf.shares {root visit : Visit} (rootOf : RootOf name seed program compiled root)
    (within : visit.Within root) : visit.before.Shares ∧ visit.after.Shares := by
  have quiet := isQuiet_prepare _ _ _ _ _ rootOf.prepared
  have started := (CompileState.shares_start name seed).of_same quiet.nodes quiet.inputCache
  exact rootOf.faithful.keeps within OwnStep.keeps_shares started

/-- Every input exists once: no two input layers share a name, wherever their declarations stand and
however often they are come to, so all of them are listed. -/
theorem inputs_once (compiles : compile name seed program = .ok compiled) :
    (compiled.network.inputs.map Layer.name).Nodup ∧
      compiled.network.inputLayers = compiled.network.inputs.map Layer.id := by
  obtain ⟨root, rootOf⟩ := exists_rootOf compiles
  have apart := nodup_inputs_of_shares (rootOf.shares (.self root)).2
  rw [← rootOf.nodes] at apart
  have distinct := nodup_inputs apart
  exact ⟨distinct, Network.inputLayers_of_nodup distinct⟩

/-- Inputs that are declared in a loop, in a branch and in a template, are referred to ahead, and are
added for a connection. -/
def manyInputs : Instruction :=
  .program
    [.templateDef "twin" [] [sizedLayer "input" "in1" 2],
      .connect "x" "d",
      .loop "i" "1" "2" [sizedLayer "input" "in1" 2],
      .templateCall "twin" [],
      .branch none (.condition "x > 0") [sizedLayer "input" "x" 3] [],
      sizedLayer "dense" "d" 1,
      .connect "in12" "d"]

example : (compile "net" 0 manyInputs).toOption.map
    (fun compiled => compiled.network.inputs.map Layer.name) = some ["in1", "x", "in12"] := by
  decide +kernel

/-- Each of the three inputs exists once. -/
theorem many_inputs_once :
    ∃ compiled, compile "net" 0 manyInputs = .ok compiled ∧
      compiled.network.inputLayers.length = 3 ∧
      (compiled.network.inputs.map Layer.name).Nodup := by
  have passed : (compile "net" 0 manyInputs).toOption.any
      (fun compiled => compiled.network.inputLayers.length == 3) = true := by decide +kernel
  obtain ⟨compiled, compiles, three⟩ := exists_compiled passed
  exact ⟨compiled, compiles, eq_of_beq three, (inputs_once compiles).1⟩

end Compile

end NetBlueprint
