import NetBlueprint.Proofs.Graph.Dependencies

/-!
Contract: the weights that evaluations create.

A dense layer without weights is given zeros, for the width of the first input it sees. Nothing else
about a network ever changes while it is evaluated, and weights that are there stay. `FillsTo` is
the order of networks this makes: a later one has the weights of an earlier one and perhaps more.

Owns: the order of networks by the weights they have, and the one step that creates weights.
Does not own: when an evaluation takes that step.
-/

namespace NetBlueprint

/-- A kind some evaluations later: the same, or a dense layer that was given zeros. -/
inductive LayerKind.FillsTo : LayerKind → LayerKind → Prop where
  | same (kind : LayerKind) : FillsTo kind kind
  | created (units : Nat) (activation : Activation) (width : Nat) :
      FillsTo (.dense ⟨units, activation, none⟩)
        (.dense ⟨units, activation, some (.zeros units width)⟩)

structure Layer.FillsTo (first second : Layer) : Prop where
  kind : first.kind.FillsTo second.kind
  rest : second = { first with kind := second.kind }

structure Network.FillsTo (earlier later : Network) : Prop where
  size : later.size = earlier.size
  layers : ∀ {id first}, earlier.layer? id = some first →
    ∃ second, later.layer? id = some second ∧ first.FillsTo second

/-- Every layer stands at the position that is its number. -/
def Network.Numbered (network : Network) : Prop :=
  ∀ {id layer}, network.layer? id = some layer → layer.id = id

namespace LayerKind.FillsTo

variable {first second third : LayerKind}

theorem trans (earlier : first.FillsTo second) (later : second.FillsTo third) :
    first.FillsTo third := by
  cases earlier with
  | same => exact later
  | created units activation width =>
      cases later with
      | same => exact .created units activation width

theorem isInput (fills : first.FillsTo second) : second.isInput = first.isInput := by
  cases fills <;> rfl

theorem isConditional (fills : first.FillsTo second) :
    second.isConditional = first.isConditional := by
  cases fills <;> rfl

/-- Creating weights changes nothing but weights. -/
theorem unweighted (fills : first.FillsTo second) : second.unweighted = first.unweighted := by
  cases fills <;> rfl

theorem eq_of_notDense (fills : first.FillsTo second) (notDense : first.dense? = none) :
    second = first := by
  cases fills with
  | same => rfl
  | created => cases notDense

/-- Dense layers stay dense. -/
theorem exists_dense {dense : Dense} (fills : first.FillsTo second)
    (isDense : first = .dense dense) : ∃ other, second = .dense other := by
  cases fills with
  | same => exact ⟨dense, isDense⟩
  | created => exact ⟨_, rfl⟩

/-- No other layers become dense. -/
theorem dense?_eq_none (fills : first.FillsTo second) (notDense : second.dense? = none) :
    first.dense? = none := by
  cases fills with
  | same => exact notDense
  | created => cases notDense

/-- Weights that a dense layer has are never replaced. -/
theorem eq_of_weighted {dense : Dense} {weights : DenseWeights}
    (fills : (LayerKind.dense { dense with weights := some weights }).FillsTo second) :
    second = .dense { dense with weights := some weights } := by
  cases fills with
  | same => rfl

end LayerKind.FillsTo

/-- The weights that a dense layer uses for an input are those it has from then on. -/
theorem Dense.fillsTo_weightsFor (dense : Dense) (width : Nat) :
    (LayerKind.dense dense).FillsTo
      (.dense { dense with weights := some (dense.weightsFor width) }) := by
  obtain ⟨units, activation, weights⟩ := dense
  cases weights with
  | none => exact .created units activation width
  | some _ => exact .same _

/-- With the weights it uses a dense layer has the same result once more. -/
theorem Dense.forward_again (dense : Dense) (name : String) (input : Vector32) :
    Dense.forward { dense with weights := some (dense.weightsFor input.length) } name input =
      dense.forward name input := rfl

/-- A dense layer that computes a value with its weights uses the same weights where it still has
to create them. -/
theorem Dense.weightsFor_of_fillsTo {earlier later : Dense} {weights : DenseWeights}
    {name : String} {input value : Vector32}
    (fills : (LayerKind.dense earlier).FillsTo (.dense later))
    (weighted : later.weights = some weights) (computes : later.forward name input = .ok value) :
    { earlier with weights := some (earlier.weightsFor input.length) } = later := by
  cases fills with
  | same =>
      rw [Dense.weightsFor, weighted, Option.getD_some, ← weighted]
  | created units activation width =>
      unfold Dense.forward at computes
      dsimp only at computes
      split at computes
      · cases computes
      · rename_i fits
        have sameWidth : width = input.length := not_not.1 (mt bne_iff_ne.2 fits)
        rw [sameWidth]
        rfl

namespace Layer.FillsTo

variable {first second third : Layer}

theorem refl (layer : Layer) : layer.FillsTo layer :=
  ⟨.same _, rfl⟩

theorem trans (earlier : first.FillsTo second) (later : second.FillsTo third) :
    first.FillsTo third := by
  refine ⟨earlier.kind.trans later.kind, ?_⟩
  rw [later.rest, earlier.rest]

theorem id (fills : first.FillsTo second) : second.id = first.id := by
  rw [fills.rest]

theorem name (fills : first.FillsTo second) : second.name = first.name := by
  rw [fills.rest]

theorem inputs (fills : first.FillsTo second) : second.inputs = first.inputs := by
  rw [fills.rest]

/-- Layers other than dense ones stay as they are. -/
theorem eq_of_notDense (fills : first.FillsTo second) (notDense : first.kind.dense? = none) :
    second = first := by
  rw [fills.rest, fills.kind.eq_of_notDense notDense]

end Layer.FillsTo

namespace Network.FillsTo

variable {first second third : Network} {id : LayerId}

theorem refl (network : Network) : network.FillsTo network :=
  ⟨rfl, fun {_ layer} found => ⟨layer, found, .refl layer⟩⟩

theorem trans (earlier : first.FillsTo second) (later : second.FillsTo third) :
    first.FillsTo third where
  size := later.size.trans earlier.size
  layers found := by
    obtain ⟨middle, middleFound, middleFills⟩ := earlier.layers found
    obtain ⟨last, lastFound, lastFills⟩ := later.layers middleFound
    exact ⟨last, lastFound, middleFills.trans lastFills⟩

/-- No layer comes into being by an evaluation. -/
theorem layer?_eq_none (fills : first.FillsTo second) (absent : first.layer? id = none) :
    second.layer? id = none := by
  refine Network.layer?_eq_none ?_
  rw [fills.size]
  refine Nat.le_of_not_lt fun inside => ?_
  obtain ⟨layer, found⟩ := exists_layer?_of_lt inside
  rw [absent] at found
  cases found

/-- Whatever is stored later was stored before, perhaps without weights. -/
theorem exists_earlier {layer : Layer} (fills : first.FillsTo second)
    (found : second.layer? id = some layer) :
    ∃ earlier, first.layer? id = some earlier ∧ earlier.FillsTo layer := by
  cases absent : first.layer? id with
  | none =>
      rw [fills.layer?_eq_none absent] at found
      cases found
  | some earlier =>
      obtain ⟨same, sameFound, layerFills⟩ := fills.layers absent
      cases found.symm.trans sameFound
      exact ⟨earlier, rfl, layerFills⟩

theorem nameOf (fills : first.FillsTo second) (id : LayerId) :
    second.nameOf id = first.nameOf id := by
  unfold Network.nameOf
  cases found : first.layer? id with
  | none => rw [fills.layer?_eq_none found]
  | some layer =>
      obtain ⟨same, sameFound, layerFills⟩ := fills.layers found
      rw [sameFound]
      exact layerFills.name

theorem numbered (fills : first.FillsTo second) (numbered : first.Numbered) : second.Numbered := by
  intro id layer found
  obtain ⟨earlier, isEarlier, layerFills⟩ := fills.exists_earlier found
  rw [layerFills.id, numbered isEarlier]

/-- The layers are the same but for their weights. -/
theorem unweighted (fills : first.FillsTo second) : second.unweighted = first.unweighted := by
  apply List.ext_getElem?
  intro position
  rw [getElem?_unweighted, getElem?_unweighted]
  cases found : first.layer? position with
  | none => rw [fills.layer?_eq_none found]
  | some layer =>
      obtain ⟨same, sameFound, layerFills⟩ := fills.layers found
      rw [sameFound, Option.map_some, Option.map_some, Layer.unweighted, Layer.unweighted,
        layerFills.kind.unweighted, layerFills.rest]

end Network.FillsTo

namespace Network

variable {network : Network} {id : LayerId} {layer : Layer}

/-- Weights do not change what evaluations start from. -/
theorem forwardRoots_of_unweighted {current : Network}
    (same : current.unweighted = network.unweighted) :
    current.forwardRoots = network.forwardRoots := by
  rw [forwardRoots_eq, forwardRoots_eq, same]

/-- Weights do not change names. -/
theorem nameOf_of_unweighted {current : Network} (same : current.unweighted = network.unweighted)
    (id : LayerId) : current.nameOf id = network.nameOf id := by
  have stored := getElem?_unweighted current id
  rw [same, getElem?_unweighted] at stored
  unfold nameOf
  cases found : network.layer? id with
  | none =>
      rw [found, Option.map_none, eq_comm, Option.map_eq_none_iff] at stored
      rw [stored]
  | some layer =>
      rw [found] at stored
      obtain ⟨other, isOther, alike⟩ := Option.map_eq_some_iff.1 stored.symm
      have sameName : other.unweighted.name = layer.unweighted.name := congrArg Layer.name alike
      rw [isOther]
      exact sameName

/-- Weights do not change numbers. -/
theorem Numbered.of_unweighted {current : Network} (numbered : network.Numbered)
    (same : current.unweighted = network.unweighted) : current.Numbered := by
  intro id found isFound
  have stored := getElem?_unweighted current id
  rw [same, getElem?_unweighted, isFound] at stored
  obtain ⟨layer, isLayer, alike⟩ := Option.map_eq_some_iff.1 stored
  have sameId : layer.unweighted.id = found.unweighted.id := congrArg Layer.id alike
  change layer.id = found.id at sameId
  rw [← sameId, numbered isLayer]

/-- A layer may be given the weights it uses. -/
theorem fillsTo_setKind {kind : LayerKind} (found : network.layer? id = some layer)
    (fills : layer.kind.FillsTo kind) : network.FillsTo (network.setKind id kind) where
  size := size_setKind network id kind
  layers {position first} firstFound := by
    unfold layer? at found firstFound ⊢
    rw [setKind, Array.getElem?_modify]
    by_cases same : id = position
    · subst same
      cases found.symm.trans firstFound
      rw [if_pos rfl, found, Option.map_some]
      exact ⟨_, rfl, fills, rfl⟩
    · rw [if_neg same]
      exact ⟨first, firstFound, .refl first⟩

/-- A layer may be given the kind it has later. -/
theorem FillsTo.setKind {later : Network} (fills : network.FillsTo later)
    (found : later.layer? id = some layer) :
    (network.setKind id layer.kind).FillsTo later where
  size := by rw [size_setKind, fills.size]
  layers {position first} firstFound := by
    unfold layer? at firstFound
    rw [Network.setKind, Array.getElem?_modify] at firstFound
    split at firstFound
    · rename_i same
      subst same
      obtain ⟨earlier, isEarlier, rfl⟩ := Option.map_eq_some_iff.1 firstFound
      obtain ⟨second, secondFound, layerFills⟩ := fills.layers isEarlier
      cases found.symm.trans secondFound
      exact ⟨layer, found, .same _, layerFills.rest⟩
    · exact fills.layers firstFound

/-- Setting the kind that a layer has changes nothing. -/
theorem setKind_self (found : network.layer? id = some layer) :
    network.setKind id layer.kind = network := by
  have layers : (network.layers.modify id fun layer' => { layer' with kind := layer.kind }) =
      network.layers := by
    apply Array.ext_getElem?
    intro position
    rw [Array.getElem?_modify]
    split
    · rename_i same
      subst same
      unfold layer? at found
      rw [found, Option.map_some]
    · rfl
  rw [setKind, layers]

end Network

/-! ## The step that creates weights -/

section KeepWeights

variable {state : EvalState} {id : LayerId} {layer : Layer} {dense : Dense}

/-- Keeping the weights of a dense layer creates at most these weights. -/
theorem EvalState.fillsTo_keepWeights (found : state.network.layer? id = some layer)
    (isDense : layer.kind = .dense dense) (width : Nat) :
    state.network.FillsTo (state.keepWeights id dense width).network := by
  refine Network.fillsTo_setKind found ?_
  rw [isDense]
  exact dense.fillsTo_weightsFor width

/-- Weights that were kept are there ever after, and are kept once more without a change. -/
theorem Network.FillsTo.exists_weighted {later : Network} {width : Nat}
    (found : state.network.layer? id = some layer)
    (fills : (state.keepWeights id dense width).network.FillsTo later) :
    later.layer? id = some
      { layer with kind := .dense { dense with weights := some (dense.weightsFor width) } } := by
  have kept : (state.keepWeights id dense width).network.layer? id = some
      { layer with kind := .dense { dense with weights := some (dense.weightsFor width) } } := by
    unfold Network.layer? at found ⊢
    rw [EvalState.keepWeights, Network.setKind, Array.getElem?_modify, if_pos rfl, found,
      Option.map_some]
  obtain ⟨second, secondFound, layerFills⟩ := fills.layers kept
  rw [secondFound, layerFills.rest, layerFills.kind.eq_of_weighted]

/-- Weights that were created are used again. -/
theorem EvalState.keepWeights_again {width : Nat}
    (found : state.network.layer? id = some
      { layer with kind := .dense { dense with weights := some (dense.weightsFor width) } }) :
    state.keepWeights id { dense with weights := some (dense.weightsFor width) } width = state := by
  have same := Network.setKind_self found
  exact congrArg (fun network => { state with network }) same

end KeepWeights

end NetBlueprint
