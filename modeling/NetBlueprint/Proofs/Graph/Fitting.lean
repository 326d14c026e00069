import NetBlueprint.Proofs.Graph.Yielding

/-!
Contract: how many numbers a layer yields.

The weights of a dense layer fit it when there is a bias for each of its units. The zeros that an
evaluation creates fit, and only weights that fit are installed. With weights that fit, a dense
layer yields one number for each unit: without a row for every unit the biases alone are left. An
output is cut or filled up to its own width.

Owns: weights that fit, the states that evaluations come to, what becomes of a network, and the
widths of values.

Does not own: the shapes that are inferred.
-/

namespace NetBlueprint

namespace Dense

/-- The weights that a dense layer has fit it: there is a bias for each unit. -/
def IsFitted (layer : Dense) : Prop :=
  ∀ weights ∈ layer.weights, weights.bias.length = layer.units

variable {layer : Dense}

private theorem IsFitted.bias_weightsFor (fitted : layer.IsFitted) (width : Nat) :
    (layer.weightsFor width).bias.length = layer.units := by
  unfold weightsFor
  cases present : layer.weights with
  | none => exact List.length_replicate
  | some weights => exact fitted weights present

/-- Only weights that fit are installed. -/
theorem isFitted_of_install {installed : Dense} {weights : DenseWeights}
    (installs : layer.install weights = .ok installed) :
    installed.IsFitted ∧ installed = { layer with weights := some weights } := by
  unfold install at installs
  split at installs
  · cases installs
  rename_i sameLength
  split at installs
  · cases installs
  split at installs
  · cases installs
  cases installs
  refine ⟨fun present isPresent => ?_, rfl⟩
  cases isPresent
  exact not_not.1 (mt bne_iff_ne.2 sameLength)

/-- There are no more rows than biases. -/
theorem length_rows_le (width : Nat) (input : Vector32) :
    ∀ matrix biases : Vector32, (rows width input matrix biases).length ≤ biases.length
  | matrix, [] => by rw [rows]
  | [], _ :: _ => Nat.zero_le _
  | first :: matrix, bias :: biases => by
      rw [rows, List.length_cons, List.length_cons]
      exact Nat.succ_le_succ (length_rows_le width input _ biases)

/-- With weights that fit a dense layer yields one number for each unit. -/
theorem IsFitted.length_forward (fitted : layer.IsFitted) {name : String}
    {input value : Vector32} (computes : layer.forward name input = .ok value) :
    value.length = layer.units := by
  have biases := fitted.bias_weightsFor input.length
  unfold forward at computes
  generalize layer.weightsFor input.length = weights at biases computes
  dsimp only at computes
  split at computes
  · cases computes
  have least := length_rows_le (max weights.inFeatures 1) input weights.matrix
    (weights.bias.take layer.units)
  rw [List.length_take, biases, Nat.min_self] at least
  cases computes
  rw [Activation.length_apply]
  split
  · exact biases
  · exact Nat.le_antisymm least (Nat.not_lt.1 ‹_›)

end Dense

/-! ## Networks whose weights fit -/

def Network.IsFitted (network : Network) : Prop :=
  ∀ {id layer dense}, network.layer? id = some layer → layer.kind = .dense dense → dense.IsFitted

/-- The weights that an evaluation creates fit. -/
theorem Network.IsFitted.of_fillsTo {first second : Network} (fitted : first.IsFitted)
    (fills : first.FillsTo second) : second.IsFitted := by
  intro id layer dense found isDense
  obtain ⟨earlier, isEarlier, layerFills⟩ := fills.exists_earlier found
  have kinds := layerFills.kind
  rw [isDense] at kinds
  generalize isKind : earlier.kind = kind at kinds
  cases kinds with
  | same => exact fitted isEarlier isKind
  | created units activation width =>
      intro weights isCreated
      cases isCreated
      exact List.length_replicate

/-- Weights that are installed in a layer leave the others as they are. -/
theorem Network.IsFitted.setKind {network : Network} (fitted : network.IsFitted) {id : LayerId}
    {installed : Dense} (installedFits : installed.IsFitted) :
    (network.setKind id (.dense installed)).IsFitted := by
  intro position layer dense found isDense
  unfold layer? at found
  rw [Network.setKind, Array.getElem?_modify] at found
  split at found
  · obtain ⟨_, _, rfl⟩ := Option.map_eq_some_iff.1 found
    cases isDense
    exact installedFits
  · exact fitted found isDense

namespace Evaluation

variable {feed : Feed} {network : Network} {state : EvalState} {id : LayerId} {layer : Layer}
  {value : Vector32}

/-- The states that an evaluation of a network comes to. It evaluates layers and applies layers to
inputs, one after the other or one inside another that is marked. -/
inductive Reached (feed : Feed) (network : Network) : EvalState → Prop where
  | start : Reached feed network (EvalState.start network)
  | entered {state : EvalState} (reached : Reached feed network state) (id : LayerId) :
      Reached feed network (state.enter id)
  | valued {state : EvalState} (reached : Reached feed network state) (depth : Nat) (id : LayerId) :
      Reached feed network ((valueWithin feed depth id).run state).2
  | applied {state : EvalState} (reached : Reached feed network state) (depth : Nat) (id : LayerId)
      (input : Vector32) : Reached feed network ((applyWithin feed depth id input).run state).2

/-- A layer is evaluated to a value: for itself, or on an input that it is given. -/
def Produces (feed : Feed) (state : EvalState) (id : LayerId) (value : Vector32) : Prop :=
  ∃ depth, ((valueWithin feed depth id).run state).1 = .ok value ∨
    ∃ input, ((applyWithin feed depth id input).run state).1 = .ok value

section Settling

variable (numbered : network.Numbered) (fills : network.FillsTo state.network) (depth : Nat)

include numbered fills

private theorem settled_valued (id : LayerId) :
    Settled feed (fun later => later.Yields feed id) (valueWithin feed depth id) state
      ((valueWithin feed depth id).run state).1 ((valueWithin feed depth id).run state).2 :=
  (settles_within numbered depth).1 id state fills _ _ rfl

private theorem settled_applied (id : LayerId) (input : Vector32) :
    Settled feed (fun later => later.Turns feed id input) (applyWithin feed depth id input) state
      ((applyWithin feed depth id input).run state).1
      ((applyWithin feed depth id input).run state).2 :=
  (settles_within numbered depth).2 id input state fills _ _ rfl

end Settling

/-- A state that an evaluation comes to has no weights but those that evaluations create, and
remembers nothing but values that layers have by the rules. -/
theorem Reached.fills (numbered : network.Numbered) (reached : Reached feed network state) :
    network.FillsTo state.network ∧
      ∀ later, state.network.FillsTo later → Remembers later feed state := by
  induction reached with
  | start => exact ⟨.refl network, fun _ _ => remembers_start _ _ _⟩
  | entered _ _ inductionHypothesis => exact inductionHypothesis
  | @valued state _ depth id inductionHypothesis =>
      obtain ⟨fills, remembers⟩ := inductionHypothesis
      have settled : Settled feed _ _ _ _ _ := settled_valued numbered fills depth id
      exact ⟨fills.trans settled.fills, fun later laterFills =>
        settled.remembers later laterFills (remembers later (settled.fills.trans laterFills))⟩
  | @applied state _ depth id input inductionHypothesis =>
      obtain ⟨fills, remembers⟩ := inductionHypothesis
      have settled : Settled feed _ _ _ _ _ := settled_applied numbered fills depth id input
      exact ⟨fills.trans settled.fills, fun later laterFills =>
        settled.remembers later laterFills (remembers later (settled.fills.trans laterFills))⟩

/-- A layer that is neither an input nor made of others is evaluated to its own result on some
input, with weights that are there in the end. -/
theorem Reached.exists_result (numbered : network.Numbered) (reached : Reached feed network state)
    (found : network.layer? id = some layer) (notInput : layer.kind.isInput = false)
    (notConditional : layer.kind.isConditional = false)
    (notComposite : ∀ children, layer.kind ≠ .composite children)
    (produces : Produces feed state id value) :
    ∃ later weighted input, network.FillsTo later ∧ later.layer? id = some weighted ∧
      layer.FillsTo weighted ∧ weighted.result? feed input = some value := by
  obtain ⟨fills, remembers⟩ := reached.fills numbered
  -- By the rules the layer turns some input into the value, in a network with all weights.
  have turns : ∃ later input, network.FillsTo later ∧ later.Turns feed id input value := by
    obtain ⟨depth, valued | ⟨input, applied⟩⟩ := produces
    · have settled : Settled feed _ _ _ _ _ := settled_valued numbered fills depth id
      have yields := settled.means _ (.refl _) (remembers _ settled.fills) value valued
      obtain ⟨weighted, isWeighted, layerFills⟩ := (fills.trans settled.fills).layers found
      obtain ⟨input, _, turns⟩ := yields.exists_input isWeighted
        (layerFills.kind.isInput.trans notInput)
        (layerFills.kind.isConditional.trans notConditional)
      exact ⟨_, input, fills.trans settled.fills, turns⟩
    · have settled : Settled feed _ _ _ _ _ := settled_applied numbered fills depth id input
      exact ⟨_, input, fills.trans settled.fills,
        settled.means _ (.refl _) (remembers _ settled.fills) value applied⟩
  obtain ⟨later, input, laterFills, turns⟩ := turns
  obtain ⟨weighted, isWeighted, layerFills⟩ := laterFills.layers found
  refine ⟨later, weighted, input, laterFills, isWeighted, layerFills, ?_⟩
  have means := turns.cases isWeighted
  split at means
  case h_1 kind =>
      rw [← layerFills.kind.isConditional, kind] at notConditional
      cases notConditional
  case h_2 kind =>
      have same := layerFills.kind
      rw [kind] at same
      generalize isKind : layer.kind = own at same
      cases same with
      | same => exact absurd isKind (notComposite _)
  case h_3 => exact means

/-- A dense layer yields one number for each unit. -/
theorem Reached.length_of_dense (numbered : network.Numbered) (fitted : network.IsFitted)
    (reached : Reached feed network state) (found : network.layer? id = some layer) {dense : Dense}
    (isDense : layer.kind = .dense dense) (produces : Produces feed state id value) :
    value.length = dense.units := by
  obtain ⟨later, weighted, input, fills, isWeighted, layerFills, result⟩ :=
    reached.exists_result numbered found (by rw [isDense]; rfl) (by rw [isDense]; rfl)
      (by rw [isDense]; nofun) produces
  have laterFitted : later.IsFitted := fitted.of_fillsTo fills
  have kinds := layerFills.kind
  rw [isDense] at kinds
  obtain ⟨own, isOwn⟩ := kinds.exists_dense rfl
  have sameUnits : own.units = dense.units := by
    rw [isOwn] at kinds
    cases kinds <;> rfl
  rw [Layer.result?, isOwn] at result
  dsimp only at result
  split at result
  · cases computes : own.forward weighted.name input with
    | error fault =>
        rw [computes] at result
        cases result
    | ok computed =>
        rw [computes] at result
        cases result
        rw [(laterFitted isWeighted isOwn).length_forward computes, sameUnits]
  · cases result

/-- An output yields as many numbers as its width says for some input. -/
theorem Reached.length_of_output (numbered : network.Numbered)
    (reached : Reached feed network state) (found : network.layer? id = some layer)
    {size : Option Nat} {shape : Option Shape} {function : Activation}
    (isOutput : layer.kind = .output size shape function)
    (produces : Produces feed state id value) :
    ∃ width, value.length = outputWidth size shape width := by
  obtain ⟨later, weighted, input, _, _, layerFills, result⟩ :=
    reached.exists_result numbered found (by rw [isOutput]; rfl) (by rw [isOutput]; rfl)
      (by rw [isOutput]; nofun) produces
  have same := layerFills.eq_of_notDense (by rw [isOutput]; rfl)
  rw [same, Layer.result?, isOutput] at result
  cases result
  exact ⟨input.length, by rw [Activation.length_apply, length_resize]⟩

/-- The values of some layers lead to a state that an evaluation comes to. -/
theorem Reached.after_valuesByName (ids : List LayerId) :
    ∀ {state : EvalState}, Reached feed network state → ∀ done : List (String × Vector32),
      Reached feed network ((valuesByName feed done ids).run state).2 := by
  induction ids with
  | nil => exact fun reached _ => reached
  | cons first rest inductionHypothesis =>
      intro state reached done
      rw [valuesByName, Outcome.run_bind, run_value (.refl state.network)]
      have valued := reached.valued (depthFor state.network) first
      rcases ended : (valueWithin feed (depthFor state.network) first).run state with
        ⟨outcome, after⟩
      rw [ended] at valued
      cases outcome with
      | error _ => exact valued
      | ok value => exact inductionHypothesis valued _

end Evaluation

namespace Network

open Evaluation

/-- What becomes of a network: it is evaluated, to the end or to some point on the way, and weights
are installed in its dense layers. -/
inductive Becomes (network : Network) : Network → Prop where
  | same : Becomes network network
  | evaluated {current : Network} {feed : Feed} {state : EvalState}
      (earlier : Becomes network current) (reached : Reached feed current state) :
      Becomes network state.network
  | installed {current : Network} {id : LayerId} {layer : Layer} {dense installed : Dense}
      {weights : DenseWeights} (earlier : Becomes network current)
      (found : current.layer? id = some layer) (isDense : layer.kind = .dense dense)
      (installs : dense.install weights = .ok installed) :
      Becomes network (current.setKind id (.dense installed))

variable {network current : Network} {feed : Feed} {state : EvalState} {id : LayerId}
  {layer : Layer} {value : Vector32}

/-- Evaluating every forward root is one thing that becomes of a network. -/
theorem Becomes.forward (becomes : network.Becomes current) (feed : Feed) :
    network.Becomes (current.forward feed).2 :=
  .evaluated becomes (Reached.start.after_valuesByName current.forwardRoots [])

/-- Whatever becomes of a network, its weights fit and nothing but weights is new. -/
theorem Becomes.fits (numbered : network.Numbered) (fitted : network.IsFitted)
    (becomes : network.Becomes current) :
    current.unweighted = network.unweighted ∧ current.IsFitted := by
  induction becomes with
  | same => exact ⟨rfl, fitted⟩
  | evaluated _ reached inductionHypothesis =>
      obtain ⟨same, currentFitted⟩ := inductionHypothesis
      have fills := (reached.fills (numbered.of_unweighted same)).1
      exact ⟨fills.unweighted.trans same, currentFitted.of_fillsTo fills⟩
  | installed _ found isDense installs inductionHypothesis =>
      obtain ⟨same, currentFitted⟩ := inductionHypothesis
      obtain ⟨installedFits, rfl⟩ := Dense.isFitted_of_install installs
      refine ⟨(unweighted_setKind fun other isOther => ?_).trans same,
        currentFitted.setKind installedFits⟩
      cases found.symm.trans isOther
      rw [isDense]
      rfl

/-- A dense layer yields one number for each unit, whatever became of its network. -/
theorem Becomes.length_of_dense (numbered : network.Numbered) (fitted : network.IsFitted)
    (becomes : network.Becomes current) (reached : Reached feed current state)
    (found : network.layer? id = some layer) {dense : Dense} (isDense : layer.kind = .dense dense)
    (produces : Produces feed state id value) : value.length = dense.units := by
  obtain ⟨same, currentFitted⟩ := becomes.fits numbered fitted
  obtain ⟨other, isOther, stores⟩ := exists_stores same (lt_size_of_layer? found)
  obtain ⟨own, isOwn, alike⟩ := stores.exists_alike
  cases found.symm.trans isOwn
  have kinds := alike.unweighted
  rw [isDense] at kinds
  cases otherKind : other.kind with
  | dense otherDense =>
      rw [otherKind] at kinds
      rw [reached.length_of_dense (numbered.of_unweighted same) currentFitted isOther otherKind
        produces]
      injection kinds with sameDense
      exact (congrArg Dense.units sameDense).symm
  | _ =>
      rw [otherKind] at kinds
      cases kinds

/-- An output yields as many numbers as its width says, whatever became of its network. -/
theorem Becomes.length_of_output (numbered : network.Numbered) (fitted : network.IsFitted)
    (becomes : network.Becomes current) (reached : Reached feed current state)
    (found : network.layer? id = some layer) {size : Option Nat} {shape : Option Shape}
    {function : Activation} (isOutput : layer.kind = .output size shape function)
    (produces : Produces feed state id value) :
    ∃ width, value.length = outputWidth size shape width := by
  obtain ⟨same, _⟩ := becomes.fits numbered fitted
  obtain ⟨other, isOther, stores⟩ := exists_stores same (lt_size_of_layer? found)
  obtain ⟨own, isOwn, alike⟩ := stores.exists_alike
  cases found.symm.trans isOwn
  have otherKind : other.kind = .output size shape function := by
    rw [← isOutput]
    exact LayerKind.eq_of_unweighted alike.unweighted.symm (by rw [isOutput]; rfl)
  exact reached.length_of_output (numbered.of_unweighted same) isOther otherKind produces

end Network

end NetBlueprint
