import NetBlueprint.Proofs.Compiler.Inputs
import NetBlueprint.Proofs.Compiler.Turning

/-!
Contract: which size a declared input has.

An input is added by a declaration, with the size it declares, or for a connection that starts from
a name of an auto-input, with size 1. Whichever comes first stays: a connection adds no input under
a name that stands for a layer, and a declaration finds the input that a connection has added. So
an input that is declared has the size it declares unless a connection was quicker.

Owns: which visit adds an input, and the sizes of declared inputs.
-/

namespace NetBlueprint

def LayerKind.IsInputOf (size : Int) : LayerKind → Prop
  | .input (some count) _ => (count : Int) = size
  | _ => False

/-- A visit of a connection adds the input that its source is the name of. -/
structure Visit.Synthesises (name : String) (visit : Visit) : Prop where
  connects : ∃ target, visit.instruction = .connect name target
  wanted : visit.before.wantsInput name = true

structure Visit.DeclaresInput (spec : LayerSpec) (visit : Visit) : Prop where
  declares : visit.instruction = .layer spec
  isInput : spec.isInput = true

def Network.HasInput (network : Network) (name : String) : Prop :=
  ∃ id layer, network.layer? id = some layer ∧ layer.kind.isInput = true ∧ layer.name = name

/-- An input that is there stays there. -/
theorem Network.HasInput.of_grows {earlier later : Network} {name : String}
    (hasInput : earlier.HasInput name) (grows : earlier.GrowsTo later) : later.HasInput name := by
  obtain ⟨id, layer, found, isInput, isNamed⟩ := hasInput
  obtain ⟨same, sameFound, node⟩ := grows.layer? found
  exact ⟨id, same, sameFound, (Layer.kind_eq_of_node node) ▸ isInput,
    (Layer.name_eq_of_node node).trans isNamed⟩

/-- A declaration of an input stands for one. -/
theorem LayerSpec.isInput_of_layerKind {spec : LayerSpec} {kind : LayerKind}
    (isInput : spec.isInput = true) (declared : spec.layerKind = .ok kind) :
    kind.isInput = true := by
  obtain ⟨_, _, _, _, rfl⟩ := layerKind_of_isInput isInput declared
  rfl

/-- A declared input has the size that it declares. -/
theorem LayerSpec.isInputOf_of_layerKind {spec : LayerSpec} {kind : LayerKind} {size : Int}
    (isInput : spec.isInput = true) (literal : spec.size = some (.literal size))
    (declared : spec.layerKind = .ok kind) : kind.IsInputOf size := by
  obtain ⟨counted, _, counts, _, rfl⟩ := layerKind_of_isInput isInput declared
  rw [literal] at counts
  obtain ⟨_, evaluated, checked⟩ := Outcome.bind_eq_ok.1 counts
  cases evaluated
  split at checked
  · cases checked
  · rename_i nonnegative
    rw [← Outcome.pure_eq_ok.1 checked]
    exact Int.toNat_of_nonneg (Int.not_lt.1 nonnegative)

namespace Compile

open CompileState

section Visits

variable {visit : Visit} {id : LayerId}

/-- The way of a connection that adds no input has no step of its own that changes anything. -/
theorem Unfolds.way_of_connect {source target : String} {before after : CompileState}
    {inner : List Visit} (unfolds : Unfolds (.connect source target) before inner after) :
    ∃ started, Runs (startConnect source target) before before.current started ∧
      Way Still started inner after := by
  cases unfolds with
  | connect starts sourceEnsured targetEnsured finishes =>
      obtain ⟨_, rfl⟩ := runs_startConnect starts
      exact ⟨_, starts, (sourceEnsured.way.append targetEnsured.way).then_step
        (still_of_finishConnect finishes)⟩

/-- A connection that adds a layer adds the input that its source is the name of. -/
theorem synthesises_of_brings (faithful : visit.Faithful) {source target : String}
    (connects : visit.instruction = .connect source target)
    (brings : visit.Brings fun state => id < state.network.size) : visit.Synthesises source := by
  refine ⟨⟨target, connects⟩, ?_⟩
  have unfolds := faithful.unfolds
  rw [connects] at unfolds
  obtain ⟨started, starts, way⟩ := unfolds.way_of_connect
  rcases runs_autoInput (runs_autoInput_of_startConnect starts).1 with ⟨wanted, _⟩ | ⟨_, rfl⟩
  · exact wanted
  · obtain ⟨start, finish, still, absent, came, _⟩ := way.exists_step
      (fun state => id < state.network.size) Still.grows faithful.allGrow brings.fresh
      brings.present brings.inner
    rw [← Network.length_nodes, still.nodes, Network.length_nodes] at came
    exact absurd came absent

/-- A connection that adds an input leaves one of size 1 behind. -/
theorem layer_of_synthesises (faithful : visit.Faithful) {name : String}
    (synthesises : visit.Synthesises name) :
    ∃ id layer, visit.after.network.layer? id = some layer ∧ layer.name = name ∧
      layer.kind = .input (some 1) none := by
  obtain ⟨target, connects⟩ := synthesises.connects
  have unfolds := faithful.unfolds
  rw [connects] at unfolds
  obtain ⟨started, starts, way⟩ := unfolds.way_of_connect
  rcases runs_autoInput (runs_autoInput_of_startConnect starts).1 with ⟨_, quiet⟩ | ⟨unwanted, _⟩
  · have grows := quiet.grows.trans (way.grows Still.grows faithful.allGrow)
    obtain ⟨layer, found, node⟩ := grows.network.layer?
      (Network.layer?_addLayer_size visit.before.network name (.input (some 1) none))
    exact ⟨_, layer, found, Layer.name_eq_of_node node, Layer.kind_eq_of_node node⟩
  · rw [synthesises.wanted] at unwanted
    cases unwanted

end Visits

section Runs

variable {name : String} {seed : UInt64} {program : Instruction} {compiled : Compiled}
  {root visit : Visit} {key : String} {id : LayerId} {layer : Layer}

namespace RootOf

variable (rootOf : RootOf name seed program compiled root)

include rootOf

/-- A declaration of an input that is not passed over leaves an input of its name behind. -/
theorem hasInput_of_declares {spec : LayerSpec} (within : visit.Within root)
    (declares : visit.DeclaresInput spec) (inTurn : visit.isPassed = false) :
    root.after.network.HasInput spec.name := by
  have faithful := rootOf.faithful.within within
  have sound := rootOf.faithful.sound_before within rootOf.sound
  refine Network.HasInput.of_grows ?_ (rootOf.faithful.around within).2.network
  cases layer_outcome (runs_of_layer faithful declares.declares).2 with
  | passed waits _ =>
      rw [Visit.isPassed, declares.declares, Instruction.declaredName?, Option.any_some, waits]
        at inTurn
      cases inTurn
  | @present found _ _ visible same quiet =>
      refine Network.HasInput.of_grows ?_ quiet.grows.network
      rw [sameInterface, Bool.and_eq_true, declares.isInput] at same
      unfold inCurrentScope? at visible
      split at visible
      · rename_i holder isHolder
        obtain ⟨id, shown, isFound⟩ := Option.bind_eq_some_iff.1 visible
        obtain ⟨layer, isLayer, isNamed⟩ := sound.scopes isHolder (Table.mem_of_lookup shown)
        cases isFound.symm.trans isLayer
        exact ⟨id, found, isFound, eq_of_beq same.1, isNamed⟩
      · cases visible
  | shared _ _ known quiet =>
      obtain ⟨node, stored, isNamed, isInput⟩ :=
        (rootOf.shares within).1.named (Table.mem_of_lookup known)
      rw [Network.getElem?_nodes] at stored
      obtain ⟨layer, found, rfl⟩ := Option.map_eq_some_iff.1 stored
      exact Network.HasInput.of_grows ⟨_, layer, found, isInput, isNamed⟩
        ((grows_registered _ _ _).trans quiet.grows).network
  | @added kind _ _ declared quiet =>
      refine Network.HasInput.of_grows ⟨_, _, Network.layer?_addLayer_size _ _ _, ?_, rfl⟩
        quiet.grows.network
      exact LayerSpec.isInput_of_layerKind declares.isInput declared

/-- An input was added by a declaration, or for a connection that starts from its name. -/
theorem origin_of_input (found : root.after.network.layer? id = some layer)
    (isInput : layer.kind.isInput = true) :
    ∃ visit : Visit, visit.Within root ∧
      ((∃ spec, visit.DeclaresInput spec ∧ spec.name = layer.name ∧
          spec.layerKind = .ok layer.kind) ∨
        visit.Synthesises layer.name ∧ layer.kind = .input (some 1) none) := by
  obtain ⟨visit, start, within, adds, makes⟩ := rootOf.origin_of_layer found
  have faithful := rootOf.faithful.within within
  refine ⟨visit, within, ?_⟩
  generalize isInstruction : visit.instruction = instruction at makes
  generalize layer.name = key, layer.kind = kind at makes isInput ⊢
  cases makes with
  | layer declared _ =>
      refine .inl ⟨_, ⟨isInstruction, ?_⟩, rfl, declared⟩
      have isDeclared := LayerSpec.isDeclared_of_layerKind declared
      cases kind with
      | input _ _ => exact isDeclared
      | _ => cases isInput
  | autoInput wanted => exact .inr ⟨synthesises_of_brings faithful isInstruction adds, rfl⟩
  | moduleDef | branch => cases isInput

/-- Inputs of one name are the same layer. -/
theorem eq_of_inputs {other : LayerId} {otherLayer : Layer}
    (found : root.after.network.layer? id = some layer) (isInput : layer.kind.isInput = true)
    (otherFound : root.after.network.layer? other = some otherLayer)
    (otherInput : otherLayer.kind.isInput = true) (sameName : otherLayer.name = layer.name) :
    otherLayer = layer := by
  have known {id : LayerId} {layer : Layer} (found : root.after.network.layer? id = some layer)
      (isInput : layer.kind.isInput = true) :
      root.after.globalInput? layer.name = some id := by
    have node : root.after.network.nodes[id]? = some layer.node := by
      rw [Network.getElem?_nodes, found, Option.map_some]
    have cached : root.after.globalInput? layer.node.name = some id :=
      (rootOf.shares (.self root)).2.known node isInput
    exact cached
  have first := known found isInput
  have second := known otherFound otherInput
  rw [sameName, first] at second
  cases second
  exact Option.some.inj (otherFound.symm.trans found)

/-- An input has the size that its declarations ask for unless a connection has added it. -/
theorem isInputOf_iff {size : Int}
    (only : ∀ visit spec, Visit.Within visit root → visit.DeclaresInput spec →
      spec.name = layer.name → spec.size = some (.literal size))
    (found : root.after.network.layer? id = some layer) (isInput : layer.kind.isInput = true) :
    layer.kind.IsInputOf size ↔
      size = 1 ∨ ∀ visit, Visit.Within visit root → ¬ visit.Synthesises layer.name := by
  obtain ⟨visit, within, origin⟩ := rootOf.origin_of_input found isInput
  constructor
  · intro isInputOf
    refine or_iff_not_imp_right.2 fun quick => ?_
    obtain ⟨quicker, isQuicker⟩ := not_forall.1 quick
    obtain ⟨quickerWithin, synthesises⟩ := Classical.not_imp.1 isQuicker
    obtain ⟨added, other, isAdded, addedName, addedKind⟩ :=
      layer_of_synthesises (rootOf.faithful.within quickerWithin) (Classical.not_not.1 synthesises)
    obtain ⟨same, sameFound, node⟩ :=
      (rootOf.faithful.around quickerWithin).2.network.layer? isAdded
    have sameKind : same.kind = .input (some 1) none :=
      (Layer.kind_eq_of_node node).trans addedKind
    cases rootOf.eq_of_inputs found isInput sameFound (sameKind ▸ rfl)
      ((Layer.name_eq_of_node node).trans addedName)
    rw [sameKind] at isInputOf
    exact isInputOf.symm
  · intro unhurried
    rcases origin with ⟨spec, declares, isNamed, declared⟩ | ⟨synthesises, kind⟩
    · exact LayerSpec.isInputOf_of_layerKind declares.isInput
        (only visit spec within declares isNamed) declared
    · have small := unhurried.resolve_right fun none => none visit within synthesises
      rw [kind, small]
      rfl

end RootOf

/-- What becomes of an input that is declared outside of loops, branches and templates. It is there.
If every declaration of its name that the run comes to asks for the same size, it has this size
exactly if the size is 1 or no connection from the name is come to where the name stands for no
layer yet although the base input is there. -/
theorem input_size_iff (compiles : compile name seed program = .ok compiled) {spec : LayerSpec}
    (offered : .layer spec ∈ program.offers) (isInput : spec.isInput = true) :
    compiled.network.HasInput spec.name ∧
      ∃ root, rootVisit? name seed program = some root ∧ root.instruction = program ∧
        ∀ size : Int, (∀ visit other, Visit.Within visit root → visit.DeclaresInput other →
            other.name = spec.name → other.size = some (.literal size)) →
          ∀ id layer, compiled.network.layer? id = some layer → layer.kind.isInput = true →
            layer.name = spec.name →
            (layer.kind.IsInputOf size ↔
              size = 1 ∨ ∀ visit, Visit.Within visit root → ¬ visit.Synthesises spec.name) := by
  obtain ⟨root, rootOf⟩ := exists_rootOf compiles
  rw [rootOf.network]
  refine ⟨?_, root, rootOf.isRoot, rootOf.instruction, ?_⟩
  · obtain ⟨visit, within, alike, inTurn⟩ := rootOf.comes_to_offered offered
    obtain ⟨other, declares, sameType, sameName, _⟩ := alike.layer
    have otherInput : other.isInput = true := by
      rw [LayerSpec.isInput, LayerSpec.kind, sameType]
      exact isInput
    have hasInput := rootOf.hasInput_of_declares within ⟨declares, otherInput⟩ inTurn
    rw [sameName] at hasInput
    exact hasInput.of_grows rootOf.binds.grows
  · intro size only id final isFinal finalInput finalNamed
    obtain ⟨layer, found, node⟩ := Network.layer?_of_nodes rootOf.binds.nodes isFinal
    have sameKind : layer.kind = final.kind := Layer.kind_eq_of_node node
    have isNamed : layer.name = spec.name := (Layer.name_eq_of_node node).trans finalNamed
    rw [← isNamed] at only ⊢
    rw [← sameKind] at finalInput ⊢
    exact rootOf.isInputOf_iff only found finalInput

/-- An input of size 5 with the name of an auto-input, between connections. -/
def connectedInput (early late : List Instruction) : Instruction :=
  .program (sizedLayer "input" "in1" 1 :: early ++
    sizedLayer "input" "in12" 5 :: sizedLayer "dense" "y" 1 :: late)

private def leavesInput (visit : Visit) : Bool :=
  match visit.instruction with
  | .layer spec => !spec.isInput || spec.name != "in12" || spec.size == some (.literal 5)
  | .connect source _ => source != "in12" || !visit.before.wantsInput "in12"
  | _ => true

/-- A connection to the input compiles it ahead, so a connection from it adds none. -/
theorem connectedInput_keeps_size :
    ∃ compiled id layer,
      compile "net" 0 (connectedInput [.connect "y" "in12", .connect "in12" "y"] []) =
        .ok compiled ∧
      compiled.network.layer? id = some layer ∧ layer.name = "in12" ∧ layer.kind.IsInputOf 5 := by
  have passed : (compile "net" 0 (connectedInput [.connect "y" "in12", .connect "in12" "y"]
      [])).toOption.any (fun _ => true) = true := by decide +kernel
  have leaves : (rootVisit? "net" 0 (connectedInput [.connect "y" "in12", .connect "in12" "y"]
      [])).any (Visit.all leavesInput) = true := by decide +kernel
  obtain ⟨compiled, compiles, _⟩ := exists_compiled passed
  obtain ⟨found, root, isRoot, _, sized⟩ :=
    input_size_iff compiles (List.mem_cons_of_mem _ List.mem_cons_self)
      (by decide +kernel)
  rw [isRoot, Option.any_some, Visit.all_iff] at leaves
  obtain ⟨id, layer, isLayer, isInput, isNamed⟩ := found
  refine ⟨compiled, id, layer, compiles, isLayer, isNamed, ?_⟩
  refine (sized 5 (fun visit other within declares sameName => ?_) id layer isLayer isInput
    isNamed).2 (.inr fun visit within synthesises => ?_)
  · have leaves := leaves visit within
    rw [leavesInput, declares.declares] at leaves
    simpa [declares.isInput, show other.name = "in12" from sameName] using leaves
  · obtain ⟨target, connects⟩ := synthesises.connects
    have leaves := leaves visit within
    have wanted : visit.before.wantsInput "in12" = true := synthesises.wanted
    rw [leavesInput, connects, wanted] at leaves
    cases leaves

private def isUnitInput : LayerKind → Bool
  | .input (some size) _ => size == 1
  | _ => false

/-- Where a connection from the input is come to first, the input has size 1. -/
theorem connectedInput_loses_size :
    ∃ compiled id layer, compile "net" 0 (connectedInput [.connect "in12" "y"] []) = .ok compiled ∧
      compiled.network.layer? id = some layer ∧ layer.name = "in12" ∧
      layer.kind.isInput = true ∧ ¬ layer.kind.IsInputOf 5 := by
  have passed : (compile "net" 0 (connectedInput [.connect "in12" "y"] [])).toOption.any
      (fun compiled => (compiled.network.layer? 1).any fun layer =>
        layer.name == "in12" && isUnitInput layer.kind) = true := by decide +kernel
  obtain ⟨compiled, compiles, passed⟩ := exists_compiled passed
  obtain ⟨layer, found, passed⟩ := (Option.any_eq_true _ _).1 passed
  rw [Bool.and_eq_true] at passed
  obtain ⟨isNamed, small⟩ := passed
  refine ⟨compiled, 1, layer, compiles, found, eq_of_beq isNamed, ?_⟩
  unfold isUnitInput at small
  split at small
  · rename_i size _ kind
    cases eq_of_beq small
    rw [kind]
    exact ⟨rfl, show ((1 : Nat) : Int) ≠ 5 by decide⟩
  · cases small

end Runs

end Compile

end NetBlueprint
