import NetBlueprint.Proofs.Graph.Evaluation
import NetBlueprint.Proofs.Graph.Weights

/-!
Contract: the layers that an evaluation comes to, and that the others make no difference.

An evaluation asks for the values of the layers that it reaches, and it applies these and whatever
the modules among them group. Two networks that differ only in the weights of other layers are
evaluated in step: at every point the same values are remembered, the same layers are marked and the
same layers are looked up, so the outcome is the same, be it values or a fault.

Owns: the layers that are come to, and evaluations in step.
Does not own: the order in which layers are come to.
-/

namespace NetBlueprint

namespace Network

/-- An evaluation may come to a layer: it reaches it, or a module that groups it. -/
def Touches (network : Network) (feed : Feed) (id : LayerId) : Prop :=
  ∃ upper, network.Reaches feed upper ∧ Relation.ReflTransGen network.Groups upper id

def Selects (network : Network) (feed : Feed) (chooser root : LayerId) : Prop :=
  ∃ layer condition thenRoot elseRoot holds,
    network.ChoosesBy chooser layer condition thenRoot elseRoot ∧
      condition.evaluate feed.inputs = .ok holds ∧
      (if holds then thenRoot else elseRoot) = some root

variable {network : Network} {feed : Feed} {id other : LayerId}

/-- Only roots are selected. -/
theorem Selects.hasRoot (selects : network.Selects feed id other) : network.HasRoot id other := by
  obtain ⟨layer, _, thenRoot, elseRoot, holds, ⟨found, text, kind, _⟩, _, isRoot⟩ := selects
  refine ⟨layer, found, ?_⟩
  rw [kind]
  cases holds with
  | true => exact List.mem_append_left _ (Option.mem_toList.2 isRoot)
  | false => exact List.mem_append_right _ (Option.mem_toList.2 isRoot)

theorem Reaches.touches (reaches : network.Reaches feed id) : network.Touches feed id :=
  ⟨id, reaches, .refl⟩

private theorem Touches.of_groups (touches : network.Touches feed id)
    (groups : network.Groups id other) :
    network.Touches feed other := by
  obtain ⟨upper, reaches, leads⟩ := touches
  exact ⟨upper, reaches, leads.tail groups⟩

/-- A conditional layer that is come to is evaluated. -/
theorem Touches.reaches (touches : network.Touches feed id)
    (isConditional : network.IsConditional id) : network.Reaches feed id := by
  obtain ⟨upper, reaches, leads⟩ := touches
  rcases Relation.reflTransGen_iff_eq_or_transGen.1 leads with rfl | below
  · exact reaches
  · exact reaches.of_depends (.grouped below isConditional)

theorem Reaches.lt_size (wellFormed : network.WellFormed) (reaches : network.Reaches feed id) :
    id < network.size := by
  obtain ⟨root, isRoot, leads⟩ := reaches
  rcases Relation.ReflTransGen.cases_tail leads with rfl | ⟨_, _, last⟩
  · exact lt_size_of_forwardRoots wellFormed isRoot
  · exact last.lt_size wellFormed

theorem Touches.lt_size (wellFormed : network.WellFormed) (touches : network.Touches feed id) :
    id < network.size := by
  obtain ⟨upper, reaches, leads⟩ := touches
  rcases Relation.ReflTransGen.cases_tail leads with rfl | ⟨_, _, layer, found, member⟩
  · exact reaches.lt_size wellFormed
  · exact Nat.lt_trans (wellFormed.childrenEarlier found member) (lt_size_of_layer? found)

/-- A layer from which no evaluation starts is come to where it is selected, along an edge, or in a
module; only conditional layers are also evaluated inside modules. -/
theorem Touches.cases (wellFormed : network.WellFormed) (touches : network.Touches feed id)
    (noRoot : id ∉ network.forwardRoots) (notConditional : ¬ network.IsConditional id) :
    (∃ chooser, network.Reaches feed chooser ∧ network.Selects feed chooser id) ∨
      (∃ consumer, network.Reaches feed consumer ∧ network.Edge id consumer) ∨
        ∃ upper, network.Touches feed upper ∧ network.Groups upper id := by
  obtain ⟨upper, ⟨root, isRoot, leads⟩, groups⟩ := touches
  rcases Relation.ReflTransGen.cases_tail groups with rfl | ⟨before, earlier, last⟩
  · rcases Relation.ReflTransGen.cases_tail leads with rfl | ⟨before, earlier, last⟩
    · exact absurd isRoot noRoot
    · have reaches : network.Reaches feed before := ⟨root, isRoot, earlier⟩
      cases last with
      | producer found _ _ stored =>
          have inside := wellFormed.inputsInRange found stored
          obtain ⟨producer, isProducer⟩ := exists_layer?_of_lt inside
          exact .inr (.inl ⟨before, reaches, producer, isProducer,
            (wellFormed.mirrored isProducer found).2 stored⟩)
      | root chooses decided selected =>
          exact .inl ⟨before, reaches, _, _, _, _, _, chooses, decided, selected⟩
      | grouped _ isConditional => exact absurd isConditional notConditional
  · exact .inr (.inr ⟨before, ⟨upper, ⟨root, isRoot, leads⟩, earlier⟩, last⟩)

end Network

namespace Evaluation

/-- Two evaluations in step: they remember the same values, have marked the same layers, and differ
at most in the weights of layers that neither comes to. -/
structure InStep (network : Network) (feed : Feed) (one other : EvalState) : Prop where
  oneLayers : one.network.unweighted = network.unweighted
  otherLayers : other.network.unweighted = network.unweighted
  shared : ∀ id, network.Touches feed id → other.network.layer? id = one.network.layer? id
  cache : other.cache = one.cache
  active : other.active = one.active

/-- From states in step a computation comes to the same outcome and to states in step. -/
def KeepsStep {Result : Type} (network : Network) (feed : Feed) (computation : EvalM Result) :
    Prop :=
  ∀ one other, InStep network feed one other →
    (computation.run other).1 = (computation.run one).1 ∧
      InStep network feed (computation.run one).2 (computation.run other).2

section Combinators

variable {Result Next : Type} {network : Network} {feed : Feed}

theorem keepsStep_pure (value : Result) : KeepsStep network feed (pure value) :=
  fun _ _ inStep => ⟨rfl, inStep⟩

theorem keepsStep_throw (fault : GraphError) :
    KeepsStep network feed (throw fault : EvalM Result) :=
  fun _ _ inStep => ⟨rfl, inStep⟩

theorem keepsStep_bind {computation : EvalM Result} {next : Result → EvalM Next}
    (first : KeepsStep network feed computation)
    (second : ∀ value, KeepsStep network feed (next value)) :
    KeepsStep network feed (computation >>= next) := by
  intro one other inStep
  obtain ⟨same, between⟩ := first one other inStep
  rw [Outcome.run_bind, Outcome.run_bind]
  generalize computation.run one = oneEnded at same between ⊢
  generalize computation.run other = otherEnded at same between ⊢
  obtain ⟨outcome, oneAfter⟩ := oneEnded
  obtain ⟨otherOutcome, otherAfter⟩ := otherEnded
  dsimp only at same between
  subst same
  cases otherOutcome with
  | error fault => exact ⟨rfl, between⟩
  | ok value => exact second value _ _ between

/-- What is read from the states has to be the same in both. -/
theorem keepsStep_get_bind {next : EvalState → EvalM Next}
    (same : ∀ one other, InStep network feed one other → next other = next one)
    (each : ∀ state, KeepsStep network feed (next state)) :
    KeepsStep network feed (get >>= next) := by
  intro one other inStep
  have stepped := each one one other inStep
  rw [← same one other inStep] at stepped
  have oneRun : (get >>= next : EvalM Next).run one = (next other).run one := by
    rw [same one other inStep]
    rfl
  rw [oneRun]
  exact stepped

/-- A layer that is come to is the same in both. -/
theorem keepsStep_layer_bind {id : LayerId} {next : Layer → EvalM Next}
    (wellFormed : network.WellFormed) (touches : network.Touches feed id)
    (each : ∀ found, network.Stores id found → KeepsStep network feed (next found)) :
    KeepsStep network feed (layer id >>= next) := by
  intro one other inStep
  obtain ⟨found, isFound, stores⟩ :=
    Network.exists_stores inStep.oneLayers (touches.lt_size wellFormed)
  have otherFound := (inStep.shared id touches).trans isFound
  rw [Outcome.run_bind, Outcome.run_bind, run_layer isFound, run_layer otherFound]
  exact each found stores one other inStep

theorem keepsStep_external (name : String) : KeepsStep network feed (external feed name) := by
  unfold external
  split
  · exact keepsStep_pure _
  · exact keepsStep_throw _

private theorem keepsStep_gather {value : LayerId → EvalM Vector32} : ∀ {ids : List LayerId},
    (∀ id ∈ ids, KeepsStep network feed (value id)) → KeepsStep network feed (gather value ids)
  | [], _ => keepsStep_pure []
  | first :: rest, each => by
      obtain ⟨head, tail⟩ := List.forall_mem_cons.1 each
      exact keepsStep_bind head fun _ => keepsStep_bind (keepsStep_gather tail) fun _ =>
        keepsStep_pure _

private theorem keepsStep_runChildren {apply : LayerId → Vector32 → EvalM Vector32}
    {input : Vector32} :
    ∀ {children : List LayerId} {last : Vector32},
      (∀ child ∈ children, ∀ given, KeepsStep network feed (apply child given)) →
        KeepsStep network feed (runChildren feed apply input last children)
  | [], last, _ => keepsStep_pure last
  | first :: rest, last, each => by
      obtain ⟨head, tail⟩ := List.forall_mem_cons.1 each
      exact keepsStep_bind (head _) fun _ => keepsStep_runChildren tail

end Combinators

/-! ## Visits and layers -/

section Layers

variable {network : Network} {feed : Feed} {id : LayerId} {found : Layer}

private theorem keepsStep_marked {computation : EvalM Vector32}
    (keeps : KeepsStep network feed computation) :
    KeepsStep network feed (marked id computation) := by
  intro one other inStep
  have entered : InStep network feed (one.enter id) (other.enter id) :=
    { inStep with active := congrArg (id :: ·) inStep.active }
  obtain ⟨same, between⟩ := keeps _ _ entered
  rw [run_marked, run_marked]
  generalize computation.run (one.enter id) = oneEnded at same between ⊢
  generalize computation.run (other.enter id) = otherEnded at same between ⊢
  obtain ⟨outcome, oneAfter⟩ := oneEnded
  obtain ⟨otherOutcome, otherAfter⟩ := otherEnded
  dsimp only at same between
  subst same
  have left : InStep network feed (oneAfter.leave id) (otherAfter.leave id) :=
    { between with active := congrArg (List.erase · id) between.active }
  cases otherOutcome with
  | error fault => exact ⟨rfl, left⟩
  | ok value => exact ⟨rfl, { left with cache := congrArg ((id, value) :: ·) between.cache }⟩

private theorem keepsStep_visit {computation : Layer → EvalM Vector32}
    (wellFormed : network.WellFormed)
    (touches : network.Touches feed id)
    (keeps : ∀ found, network.Stores id found → KeepsStep network feed (computation found)) :
    KeepsStep network feed (visit id computation) := by
  intro one other inStep
  obtain ⟨found, isFound, stores⟩ :=
    Network.exists_stores inStep.oneLayers (touches.lt_size wellFormed)
  rw [run_visit isFound, run_visit ((inStep.shared id touches).trans isFound), inStep.cache,
    inStep.active]
  split
  · exact ⟨rfl, inStep⟩
  split
  · exact ⟨rfl, inStep⟩
  · exact keepsStep_marked (keeps found stores) one other inStep

/-- Both keep the same weights for a dense layer that they apply. -/
theorem InStep.keepWeights {one other : EvalState} (inStep : InStep network feed one other)
    (stores : network.Stores id found) (numbered : found.id = id) {dense : Dense}
    (isDense : found.kind = .dense dense) (width : Nat) :
    InStep network feed (one.keepWeights found.id dense width)
      (other.keepWeights found.id dense width) := by
  have unweighted {state : EvalState} (same : state.network.unweighted = network.unweighted) :
      (state.keepWeights found.id dense width).network.unweighted = network.unweighted := by
    have standing : Standing network feed state.active { state with cache := [] } :=
      ⟨rfl, same, .nil⟩
    exact (standing.keepWeights stores numbered isDense width).layers
  refine ⟨unweighted inStep.oneLayers, unweighted inStep.otherLayers, fun touched touches => ?_,
    inStep.cache, inStep.active⟩
  have same := inStep.shared touched touches
  unfold Network.layer? at same
  unfold EvalState.keepWeights Network.layer? Network.setKind
  dsimp only
  rw [Array.getElem?_modify, Array.getElem?_modify, same]

private theorem keepsStep_applyDense (stores : network.Stores id found) (numbered : found.id = id)
    {dense : Dense} (isDense : found.kind = .dense dense) (input : Vector32) :
    KeepsStep network feed (applyDense found.id found.name dense input) := by
  refine keepsStep_bind (fun one other inStep => ?_) fun _ => ?_
  · rw [run_modify, run_modify]
    exact ⟨rfl, inStep.keepWeights stores numbered isDense input.length⟩
  · split
    · exact keepsStep_pure _
    · exact keepsStep_throw _

/-- A layer that is come to is applied in step. -/
theorem keepsStep_applyLayer (wellFormed : network.WellFormed) (stores : network.Stores id found)
    {value : LayerId → EvalM Vector32} {apply : LayerId → Vector32 → EvalM Vector32}
    {input : Vector32} (valued : network.IsConditional id → KeepsStep network feed (value id))
    (applied : ∀ child, network.Groups id child → ∀ given,
      KeepsStep network feed (apply child given)) :
    KeepsStep network feed (applyLayer feed value apply found input) := by
  obtain ⟨layer, isLayer, alike⟩ := stores.exists_alike
  have numbered : found.id = id := alike.id.symm.trans (wellFormed.numbered isLayer)
  unfold applyLayer
  cases kind : found.kind with
  | input size shape => exact keepsStep_external _
  | dense dense => exact keepsStep_applyDense stores numbered kind input
  | conditional condition thenRoot elseRoot =>
      dsimp only
      rw [numbered]
      exact valued ⟨layer, isLayer, by rw [alike.isConditional, kind]; rfl⟩
  | composite children =>
      refine keepsStep_runChildren fun child member => applied child ⟨layer, isLayer, ?_⟩
      rw [alike.children, kind]
      exact member
  | test _ _ _ | repetition _ _ _ _ | template _ => exact keepsStep_throw _
  | _ => exact keepsStep_pure _

/-- The value of a layer is computed in step from those it depends on. -/
theorem keepsStep_compute (wellFormed : network.WellFormed) (readable : network.Readable)
    (stores : network.Stores id found)
    {value : LayerId → EvalM Vector32} {apply : LayerId → Vector32 → EvalM Vector32}
    (valued : ∀ other, network.Depends feed id other → KeepsStep network feed (value other))
    (applied : ∀ input, KeepsStep network feed (apply id input)) :
    KeepsStep network feed (compute feed value apply found) := by
  obtain ⟨layer, isLayer, alike⟩ := stores.exists_alike
  have numbered : found.id = id := alike.id.symm.trans (wellFormed.numbered isLayer)
  have gathers (notInput : found.kind.isInput = false)
      (notConditional : found.kind.isConditional = false) :
      KeepsStep network feed (gather value found.inputs >>= apply found.id) := by
    rw [← alike.isInput] at notInput
    rw [← alike.isConditional] at notConditional
    rw [numbered, ← alike.inputs]
    exact keepsStep_bind (keepsStep_gather fun producer stored =>
      valued producer (.producer isLayer notInput notConditional stored)) applied
  unfold compute
  cases kind : found.kind with
  | input size shape => exact keepsStep_external _
  | conditional text thenRoot elseRoot =>
      have sameKind := alike.kind (by rw [kind]; rfl)
      rw [kind] at sameKind
      obtain ⟨condition, parsed⟩ := readable.exists_condition isLayer sameKind
      dsimp only
      unfold selectRoot
      rw [parsed]
      dsimp only
      cases decided : condition.evaluate feed.inputs with
      | error fault => exact keepsStep_throw _
      | ok holds =>
          rw [pure_bind]
          cases selected : if holds then thenRoot else elseRoot with
          | some root =>
              exact valued root (.root ⟨isLayer, text, sameKind, parsed⟩ decided selected)
          | none => exact keepsStep_external _
  | _ =>
      rw [kind] at gathers
      exact gathers rfl rfl

end Layers

/-! ## Whole evaluations -/

section Whole

variable {network : Network} {feed : Feed}

/-- Within any depth, values are found in step of layers that are reached, and layers are applied in
step that are come to. -/
theorem keepsStep_within (wellFormed : network.WellFormed) (readable : network.Readable) :
    ∀ depth, (∀ {id}, network.Reaches feed id →
        KeepsStep network feed (valueWithin feed depth id)) ∧
      ∀ {id}, network.Touches feed id → ∀ input,
        KeepsStep network feed (applyWithin feed depth id input)
  | 0 => ⟨fun _ => keepsStep_throw _, fun _ _ => keepsStep_throw _⟩
  | depth + 1 => by
      obtain ⟨valued, applied⟩ := keepsStep_within wellFormed readable depth
      refine ⟨fun reaches => ?_, fun touches input => ?_⟩
      · rw [valueWithin]
        refine keepsStep_visit wellFormed reaches.touches fun found stores => ?_
        exact keepsStep_compute wellFormed readable stores
          (fun other depends => valued (reaches.of_depends depends)) (applied reaches.touches)
      · rw [applyWithin]
        refine keepsStep_layer_bind wellFormed touches fun found stores => ?_
        exact keepsStep_applyLayer wellFormed stores
          (fun isConditional => valued (touches.reaches isConditional))
          fun child groups => applied (touches.of_groups groups)

private theorem keepsStep_value (wellFormed : network.WellFormed) (readable : network.Readable)
    {id : LayerId} (reaches : network.Reaches feed id) :
    KeepsStep network feed (value feed id) := by
  refine keepsStep_get_bind (fun one other inStep => ?_) fun state =>
    (keepsStep_within wellFormed readable _).1 reaches
  have size : other.network.size = one.network.size := by
    rw [← Network.length_unweighted, inStep.otherLayers, ← inStep.oneLayers,
      Network.length_unweighted]
  rw [depthFor, depthFor, size]

private theorem keepsStep_valuesByName (wellFormed : network.WellFormed)
    (readable : network.Readable) :
    ∀ {ids : List LayerId} (done : List (String × Vector32)),
      (∀ id ∈ ids, network.Reaches feed id) → KeepsStep network feed (valuesByName feed done ids)
  | [], done, _ => keepsStep_pure done
  | first :: rest, done, reaches => by
      obtain ⟨head, tail⟩ := List.forall_mem_cons.1 reaches
      refine keepsStep_bind (keepsStep_value wellFormed readable head) fun result => ?_
      refine keepsStep_get_bind (fun one other inStep => ?_) fun state =>
        keepsStep_valuesByName wellFormed readable _ tail
      unfold Network.nameOf
      rw [inStep.shared first head.touches]

end Whole

end Evaluation

namespace Network

variable {network one other : Network} {feed : Feed}

/-- Layers that an evaluation does not come to make no difference to its outcome, whatever weights
they have. -/
theorem forward_eq_of_shared (wellFormed : network.WellFormed) (readable : network.Readable)
    (oneLayers : one.unweighted = network.unweighted)
    (otherLayers : other.unweighted = network.unweighted)
    (shared : ∀ id, network.Touches feed id → other.layer? id = one.layer? id) :
    (other.forward feed).1 = (one.forward feed).1 := by
  have inStep : Evaluation.InStep network feed (EvalState.start one) (EvalState.start other) :=
    ⟨oneLayers, otherLayers, shared, rfl, rfl⟩
  have keeps : Evaluation.KeepsStep network feed
      (Evaluation.valuesByName feed [] network.forwardRoots) :=
    Evaluation.keepsStep_valuesByName wellFormed readable [] fun id isRoot => ⟨id, isRoot, .refl⟩
  unfold forward
  rw [forwardRoots_of_unweighted oneLayers, forwardRoots_of_unweighted otherLayers]
  exact (keeps _ _ inStep).1

end Network

end NetBlueprint
