import NetBlueprint.Proofs.Graph.Evaluation
import NetBlueprint.Proofs.Graph.Weights

/-!
Contract: the values that layers have by the rules of evaluation alone.

`Yields` says which value a layer has where nothing is remembered, no layer is marked, and every
dense layer has its weights from the start. An evaluation remembers values, marks layers and creates
weights on its way. Whatever value it comes to is one that the rules give for the weights it ends
with, and with these weights, or those of any later network, it takes the same way once more.

Owns: the rules, and that evaluations keep to them and can be repeated.
Does not own: that an evaluation comes to every value the rules give.
-/

namespace NetBlueprint

/-- The result of a layer on an input, where it needs no other layer. A dense layer uses the weights
that it has. -/
def Layer.result? (feed : Feed) (layer : Layer) (input : Vector32) : Option Vector32 :=
  match layer.kind with
  | .input _ _ => feed.inputs.lookup layer.name
  | .output size shape function =>
    some (function.apply
      (Evaluation.resize (Evaluation.outputWidth size shape input.length) input))
  | .dense dense =>
    if dense.weights.isSome then (dense.forward layer.name input).toOption else none
  | .dropout rate training _ => some (Evaluation.applyDropout rate training input)
  | .activation function _ => some (function.apply input)
  | .conv _ _ _ | .attention _ _ | .transformer _ _ _ | .reshape _ | .norm _ => some input
  | .conditional _ _ _ | .composite _ | .test _ _ _ | .repetition _ _ _ _ | .template _ => none

namespace Network

mutual

/-- The value of a layer: an input has the one supplied, a conditional layer that of the root it
selects, and any other layer turns what its producers yield into its own. -/
inductive Yields (network : Network) (feed : Feed) : LayerId → Vector32 → Prop where
  | supplied {id : LayerId} {layer : Layer} {value : Vector32}
      (found : network.layer? id = some layer) (isInput : layer.kind.isInput = true)
      (given : feed.inputs.lookup layer.name = some value) : Yields network feed id value
  | selected {id root : LayerId} {layer : Layer} {condition : Condition}
      {thenRoot elseRoot : Option LayerId} {holds : Bool} {value : Vector32}
      (chooses : network.ChoosesBy id layer condition thenRoot elseRoot)
      (decided : condition.evaluate feed.inputs = .ok holds)
      (isRoot : (if holds then thenRoot else elseRoot) = some root)
      (yields : Yields network feed root value) : Yields network feed id value
  | unrooted {id : LayerId} {layer : Layer} {condition : Condition}
      {thenRoot elseRoot : Option LayerId} {holds : Bool} {value : Vector32}
      (chooses : network.ChoosesBy id layer condition thenRoot elseRoot)
      (decided : condition.evaluate feed.inputs = .ok holds)
      (noRoot : (if holds then thenRoot else elseRoot) = none)
      (given : feed.inputs.lookup layer.name = some value) : Yields network feed id value
  | computed {id : LayerId} {layer : Layer} {input value : Vector32}
      (found : network.layer? id = some layer) (notInput : layer.kind.isInput = false)
      (notConditional : layer.kind.isConditional = false)
      (gathers : Gathers network feed layer.inputs input)
      (turns : Turns network feed id input value) : Yields network feed id value

inductive Gathers (network : Network) (feed : Feed) : List LayerId → Vector32 → Prop where
  | nil : Gathers network feed [] []
  | cons {id : LayerId} {rest : List LayerId} {first others : Vector32}
      (head : Yields network feed id first) (tail : Gathers network feed rest others) :
      Gathers network feed (id :: rest) (first ++ others)

/-- What a layer turns an input into: a conditional layer has its value whatever the input is, and
a module feeds its children. -/
inductive Turns (network : Network) (feed : Feed) : LayerId → Vector32 → Vector32 → Prop where
  | own {id : LayerId} {layer : Layer} {input value : Vector32}
      (found : network.layer? id = some layer) (result : layer.result? feed input = some value) :
      Turns network feed id input value
  | conditional {id : LayerId} {layer : Layer} {input value : Vector32}
      (found : network.layer? id = some layer) (isConditional : layer.kind.isConditional = true)
      (yields : Yields network feed id value) : Turns network feed id input value
  | composite {id : LayerId} {layer : Layer} {children : List LayerId} {input value : Vector32}
      (found : network.layer? id = some layer) (groups : layer.kind = .composite children)
      (feeds : Feeds network feed input input children value) : Turns network feed id input value

/-- What is left when some children of a module are fed one after the other. -/
inductive Feeds (network : Network) (feed : Feed) :
    Vector32 → Vector32 → List LayerId → Vector32 → Prop where
  | nil {input last : Vector32} : Feeds network feed input last [] last
  | cons {input last next value : Vector32} {child : LayerId} {rest : List LayerId}
      (head : Turns network feed child
        (match feed.mode with
          | .parallel => input
          | .chained => last) next)
      (tail : Feeds network feed input next rest value) :
      Feeds network feed input last (child :: rest) value

end

section Inversion

variable {network : Network} {feed : Feed} {id : LayerId} {layer : Layer} {input value : Vector32}

/-- Only a layer of the network has a value. -/
theorem Yields.exists_layer (yields : network.Yields feed id value) :
    ∃ layer, network.layer? id = some layer := by
  cases yields with
  | supplied found => exact ⟨_, found⟩
  | selected chooses | unrooted chooses => exact ⟨_, chooses.1⟩
  | computed found => exact ⟨_, found⟩

theorem Turns.exists_layer (turns : network.Turns feed id input value) :
    ∃ layer, network.layer? id = some layer := by
  cases turns <;> exact ⟨_, ‹_›⟩

/-- An input has the value that was supplied. -/
theorem Yields.supplied_of_isInput (found : network.layer? id = some layer)
    (isInput : layer.kind.isInput = true) (yields : network.Yields feed id value) :
    feed.inputs.lookup layer.name = some value := by
  cases yields with
  | supplied same _ given =>
      cases found.symm.trans same
      exact given
  | selected chooses | unrooted chooses =>
      obtain ⟨same, _, kind, _⟩ := chooses
      cases found.symm.trans same
      rw [kind] at isInput
      cases isInput
  | computed same notInput =>
      cases found.symm.trans same
      rw [isInput] at notInput
      cases notInput

/-- A conditional layer has the value of the root that is selected, or the one supplied. -/
theorem Yields.of_conditional {text : String} {thenRoot elseRoot : Option LayerId}
    (found : network.layer? id = some layer)
    (kind : layer.kind = .conditional text thenRoot elseRoot)
    (yields : network.Yields feed id value) :
    ∃ condition holds, Condition.parse text = .ok condition ∧
      condition.evaluate feed.inputs = .ok holds ∧
      match if holds then thenRoot else elseRoot with
      | some root => network.Yields feed root value
      | none => feed.inputs.lookup layer.name = some value := by
  cases yields with
  | supplied same isInput =>
      cases found.symm.trans same
      rw [kind] at isInput
      cases isInput
  | selected chooses decided isRoot yields =>
      obtain ⟨same, sameText, sameKind, parsed⟩ := chooses
      cases found.symm.trans same
      cases kind.symm.trans sameKind
      refine ⟨_, _, parsed, decided, ?_⟩
      rw [isRoot]
      exact yields
  | unrooted chooses decided noRoot given =>
      obtain ⟨same, sameText, sameKind, parsed⟩ := chooses
      cases found.symm.trans same
      cases kind.symm.trans sameKind
      refine ⟨_, _, parsed, decided, ?_⟩
      rw [noRoot]
      exact given
  | computed same _ notConditional =>
      cases found.symm.trans same
      rw [kind] at notConditional
      cases notConditional

/-- Any other layer turns the values of its producers into its own. -/
theorem Yields.exists_input (found : network.layer? id = some layer)
    (notInput : layer.kind.isInput = false) (notConditional : layer.kind.isConditional = false)
    (yields : network.Yields feed id value) :
    ∃ input, network.Gathers feed layer.inputs input ∧ network.Turns feed id input value := by
  cases yields with
  | supplied same isInput =>
      cases found.symm.trans same
      rw [isInput] at notInput
      cases notInput
  | selected chooses | unrooted chooses =>
      obtain ⟨same, _, kind, _⟩ := chooses
      cases found.symm.trans same
      rw [kind] at notConditional
      cases notConditional
  | computed same _ _ gathers turns =>
      cases found.symm.trans same
      exact ⟨_, gathers, turns⟩

/-- A conditional layer that is applied has its value, a module feeds its children, and any other
layer needs no other. -/
theorem Turns.cases (found : network.layer? id = some layer)
    (turns : network.Turns feed id input value) :
    match layer.kind with
    | .conditional _ _ _ => network.Yields feed id value
    | .composite children => network.Feeds feed input input children value
    | _ => layer.result? feed input = some value := by
  cases turns with
  | own same result =>
      cases found.symm.trans same
      cases kind : layer.kind with
      | conditional _ _ _ | composite _ =>
          rw [Layer.result?, kind] at result
          cases result
      | _ => exact result
  | conditional same isConditional yields =>
      cases found.symm.trans same
      cases kind : layer.kind with
      | conditional _ _ _ => exact yields
      | _ =>
          rw [kind] at isConditional
          cases isConditional
  | composite same groups feeds =>
      cases found.symm.trans same
      rw [groups]
      exact feeds

end Inversion

section Unique

variable {network : Network} {feed : Feed}

mutual

/-- A layer has one value. -/
theorem Yields.unique {id : LayerId} {value other : Vector32} :
    network.Yields feed id value → network.Yields feed id other → value = other
  | .supplied found isInput given, again =>
      Option.some.inj (given.symm.trans (again.supplied_of_isInput found isInput))
  | .selected ⟨found, text, kind, parsed⟩ decided isRoot yields, again => by
      obtain ⟨condition, holds, sameParsed, sameDecided, means⟩ := again.of_conditional found kind
      cases parsed.symm.trans sameParsed
      cases decided.symm.trans sameDecided
      rw [isRoot] at means
      exact yields.unique means
  | .unrooted ⟨found, text, kind, parsed⟩ decided noRoot given, again => by
      obtain ⟨condition, holds, sameParsed, sameDecided, means⟩ := again.of_conditional found kind
      cases parsed.symm.trans sameParsed
      cases decided.symm.trans sameDecided
      rw [noRoot] at means
      exact Option.some.inj (given.symm.trans means)
  | .computed found notInput notConditional gathers turns, again => by
      obtain ⟨input, sameGathers, sameTurns⟩ := again.exists_input found notInput notConditional
      cases gathers.unique sameGathers
      exact turns.unique sameTurns
termination_by structural yields => yields

theorem Gathers.unique {ids : List LayerId} {value other : Vector32} :
    network.Gathers feed ids value → network.Gathers feed ids other → value = other
  | .nil, .nil => rfl
  | .cons head tail, .cons sameHead sameTail => by
      rw [head.unique sameHead, tail.unique sameTail]
termination_by structural gathers => gathers

/-- A layer turns an input into one result. -/
theorem Turns.unique {id : LayerId} {input value other : Vector32} :
    network.Turns feed id input value → network.Turns feed id input other → value = other
  | .own found result, again => by
      have means := again.cases found
      split at means
      case h_1 kind | h_2 kind =>
        rw [Layer.result?, kind] at result
        cases result
      case h_3 => exact Option.some.inj (result.symm.trans means)
  | .conditional found isConditional yields, again => by
      have means := again.cases found
      split at means
      case h_1 => exact yields.unique means
      case h_2 kind =>
        rw [kind] at isConditional
        cases isConditional
      case h_3 notConditional _ =>
        rw [LayerKind.isConditional] at isConditional
        · cases isConditional
        · exact notConditional
  | .composite found groups feeds, again => by
      have means := again.cases found
      rw [groups] at means
      exact feeds.unique means
termination_by structural turns => turns

theorem Feeds.unique {input last value other : Vector32} {children : List LayerId} :
    network.Feeds feed input last children value →
      network.Feeds feed input last children other → value = other
  | .nil, .nil => rfl
  | .cons head tail, .cons sameHead sameTail => by
      cases head.unique sameHead
      exact tail.unique sameTail
termination_by structural feeds => feeds

end

end Unique

end Network

namespace Evaluation

def Remembers (network : Network) (feed : Feed) (state : EvalState) : Prop :=
  ∀ id value, (id, value) ∈ state.cache → network.Yields feed id value

/-- What a computation leaves behind: it creates weights and nothing else, it runs in the same way
on every later network, and there it keeps to the rules. -/
structure Settled {Result : Type} (feed : Feed) (Means : Network → Result → Prop)
    (computation : EvalM Result) (before : EvalState) (outcome : Except GraphError Result)
    (after : EvalState) : Prop where
  fills : before.network.FillsTo after.network
  again : ∀ later, after.network.FillsTo later →
    computation.run { before with network := later } = (outcome, { after with network := later })
  remembers : ∀ later, after.network.FillsTo later → Remembers later feed before →
    Remembers later feed after
  means : ∀ later, after.network.FillsTo later → Remembers later feed before →
    ∀ value, outcome = .ok value → Means later value

def Settles {Result : Type} (base : Network) (feed : Feed) (Means : Network → Result → Prop)
    (computation : EvalM Result) : Prop :=
  ∀ before, base.FillsTo before.network → ∀ outcome after,
    computation.run before = (outcome, after) →
      Settled feed Means computation before outcome after

section Combinators

variable {Result Next : Type} {base : Network} {feed : Feed}

theorem settles_pure {Means : Network → Result → Prop} {value : Result}
    (means : ∀ later, Means later value) : Settles base feed Means (pure value) := by
  intro before _ outcome after ended
  cases ended
  refine ⟨.refl _, fun _ _ => rfl, fun _ _ => id, ?_⟩
  rintro later _ _ _ ⟨⟩
  exact means later

theorem settles_return (value : Result) :
    Settles base feed (fun _ result => result = value) (pure value) :=
  settles_pure fun _ => rfl

theorem settles_throw {Means : Network → Result → Prop} (fault : GraphError) :
    Settles base feed Means (throw fault : EvalM Result) := by
  intro before _ outcome after ended
  cases ended
  exact ⟨.refl _, fun _ _ => rfl, fun _ _ => id, nofun⟩

theorem settles_bind {First : Network → Result → Prop} {Second : Result → Network → Next → Prop}
    {computation : EvalM Result} {next : Result → EvalM Next}
    (first : Settles base feed First computation)
    (second : ∀ value, Settles base feed (Second value) (next value)) :
    Settles base feed (fun later result => ∃ value, First later value ∧ Second value later result)
      (computation >>= next) := by
  intro before fills outcome after ended
  rw [Outcome.run_bind] at ended
  rcases stopped : computation.run before with ⟨middle, between⟩
  have settled := first before fills middle between stopped
  rw [stopped] at ended
  cases middle with
  | error fault =>
      cases ended
      refine ⟨settled.fills, fun later laterFills => ?_, settled.remembers, nofun⟩
      rw [Outcome.run_bind, settled.again later laterFills]
  | ok value =>
      have rest := second value between (fills.trans settled.fills) outcome after ended
      refine ⟨settled.fills.trans rest.fills, fun later laterFills => ?_,
        fun later laterFills => ?_, fun later laterFills remembers result same => ?_⟩
      · rw [Outcome.run_bind, settled.again later (rest.fills.trans laterFills)]
        exact rest.again later laterFills
      · exact rest.remembers later laterFills ∘
          settled.remembers later (rest.fills.trans laterFills)
      · have earlier := rest.fills.trans laterFills
        exact ⟨value, settled.means later earlier remembers value rfl,
          rest.means later laterFills (settled.remembers later earlier remembers) result same⟩

theorem Settles.imp {First Second : Network → Result → Prop} {computation : EvalM Result}
    (settles : Settles base feed First computation)
    (weaker : ∀ later value, base.FillsTo later → First later value → Second later value) :
    Settles base feed Second computation := by
  intro before fills outcome after ended
  have settled := settles before fills outcome after ended
  refine { settled with means := fun later laterFills remembers value same => ?_ }
  exact weaker later value ((fills.trans settled.fills).trans laterFills)
    (settled.means later laterFills remembers value same)

theorem settles_external (name : String) :
    Settles base feed (fun _ value => feed.inputs.lookup name = some value)
      (external feed name) := by
  unfold external
  cases supplied : feed.inputs.lookup name with
  | some value => exact settles_pure fun _ => rfl
  | none => exact settles_throw _

private theorem settles_gather {value : LayerId → EvalM Vector32}
    (each : ∀ id, Settles base feed (fun later => later.Yields feed id) (value id)) :
    ∀ ids, Settles base feed (fun later => later.Gathers feed ids) (gather value ids)
  | [] => settles_pure fun _ => .nil
  | first :: rest =>
      (settles_bind (each first) fun front => settles_bind (settles_gather each rest) fun back =>
        settles_return (front ++ back)).imp
      fun later whole _ means => by
        obtain ⟨front, head, back, tail, rfl⟩ := means
        exact .cons head tail

private theorem settles_runChildren {apply : LayerId → Vector32 → EvalM Vector32}
    (each : ∀ child given, Settles base feed (fun later => later.Turns feed child given)
      (apply child given)) {input : Vector32} :
    ∀ last children, Settles base feed (fun later => later.Feeds feed input last children)
      (runChildren feed apply input last children)
  | last, [] => settles_pure fun _ => .nil
  | last, first :: rest =>
      (settles_bind (each first _) fun next => settles_runChildren each next rest).imp
      fun later value _ means => by
        obtain ⟨next, head, tail⟩ := means
        exact .cons head tail

end Combinators

/-! ## Visits -/

section Visits

variable {base : Network} {feed : Feed} {id : LayerId}

private theorem settles_marked {computation : EvalM Vector32}
    (settles : Settles base feed (fun later => later.Yields feed id) computation) :
    Settles base feed (fun later => later.Yields feed id) (marked id computation) := by
  intro before fills outcome after ended
  rcases stopped : computation.run (before.enter id) with ⟨inner, between⟩
  have settled := settles (before.enter id) fills inner between stopped
  have rerun (later : Network) (laterFills : between.network.FillsTo later) :
      computation.run (EvalState.enter { before with network := later } id) =
        (inner, { between with network := later }) := settled.again later laterFills
  rw [run_marked, stopped] at ended
  cases inner with
  | error fault =>
      cases ended
      refine ⟨settled.fills, fun later laterFills => ?_, settled.remembers, nofun⟩
      rw [run_marked, rerun later laterFills]
      rfl
  | ok value =>
      cases ended
      refine ⟨settled.fills, fun later laterFills => ?_, fun later laterFills remembers => ?_, ?_⟩
      · rw [run_marked, rerun later laterFills]
        rfl
      · intro other stored member
        rcases List.mem_cons.1 member with new | old
        · cases new
          exact settled.means later laterFills remembers value rfl
        · exact settled.remembers later laterFills remembers other stored old
      · rintro later laterFills remembers _ ⟨⟩
        exact settled.means later laterFills remembers value rfl

private theorem run_visit_of_remembered {computation : Layer → EvalM Vector32} {state : EvalState}
    {value : Vector32} (remembered : state.cache.lookup id = some value) :
    (visit id computation).run state = (.ok value, state) := by
  unfold visit
  simp only [Outcome.run_bind, run_get, remembered]
  rfl

/-- A layer that is not there has no value. -/
theorem run_visit_of_absent {computation : Layer → EvalM Vector32} {state : EvalState}
    (forgotten : state.cache.lookup id = none) (absent : state.network.layer? id = none) :
    (visit id computation).run state = (.error (.unknownLayer id), state) := by
  unfold visit layer
  simp only [Outcome.run_bind, run_get, forgotten, absent]
  rfl

/-- A computation that ends where it started, on every network, settles. -/
theorem Settled.idle {Result : Type} {Means : Network → Result → Prop}
    {computation : EvalM Result} {before : EvalState} {outcome : Except GraphError Result}
    (rerun : ∀ later, before.network.FillsTo later →
      computation.run { before with network := later } =
        (outcome, { before with network := later }))
    (means : ∀ later, before.network.FillsTo later → Remembers later feed before →
      ∀ value, outcome = .ok value → Means later value) :
    Settled feed Means computation before outcome before :=
  ⟨.refl _, rerun, fun _ _ remembers => remembers, means⟩

/-- What a visit computes may read the layer it visits, but not its weights. -/
theorem settles_visit {computation : Layer → EvalM Vector32}
    (unweighted : ∀ {first second : Layer}, first.FillsTo second →
      computation second = computation first)
    (each : ∀ {layer}, base.layer? id = some layer →
      Settles base feed (fun later => later.Yields feed id) (computation layer)) :
    Settles base feed (fun later => later.Yields feed id) (visit id computation) := by
  intro before fills outcome after ended
  cases remembered : before.cache.lookup id with
  | some value =>
      rw [run_visit_of_remembered remembered] at ended
      cases ended
      refine .idle (fun later _ => run_visit_of_remembered remembered) ?_
      rintro later _ remembers _ ⟨⟩
      exact remembers id value (Table.mem_of_lookup remembered)
  | none =>
      cases isFound : before.network.layer? id with
      | none =>
          rw [run_visit_of_absent remembered isFound] at ended
          cases ended
          exact .idle (fun later laterFills =>
            run_visit_of_absent remembered (laterFills.layer?_eq_none isFound)) nofun
      | some found =>
          obtain ⟨layer, isLayer, layerFills⟩ := fills.exists_earlier isFound
          have rerun (later : Network) (laterFills : before.network.FillsTo later) :
              (visit id computation).run { before with network := later } =
                if before.active.contains id then
                  (.error (.cycle found.name), { before with network := later })
                else (marked id (computation layer)).run { before with network := later } := by
            obtain ⟨same, sameFound, sameFills⟩ := laterFills.layers isFound
            refine (run_visit sameFound).trans ?_
            dsimp only
            rw [remembered, unweighted (layerFills.trans sameFills), sameFills.name]
          rw [show before = { before with network := before.network } from rfl,
            rerun before.network (.refl _)] at ended
          split at ended
          · rename_i isActive
            cases ended
            refine .idle (fun later laterFills => ?_) nofun
            rw [rerun later laterFills, if_pos isActive]
          · rename_i notActive
            have settled := settles_marked (each isLayer) before fills outcome after ended
            refine { settled with again := fun later laterFills => ?_ }
            rw [rerun later (settled.fills.trans laterFills), if_neg notActive]
            exact settled.again later laterFills

end Visits

/-! ## Layers -/

section Layers

variable {base : Network} {feed : Feed} {id : LayerId} {layer : Layer}

/-- Whatever a layer computes it computes in the same way with other weights. -/
theorem compute_of_fillsTo {value : LayerId → EvalM Vector32}
    {apply : LayerId → Vector32 → EvalM Vector32} {first second : Layer}
    (fills : first.FillsTo second) :
    compute feed value apply second = compute feed value apply first := by
  obtain ⟨kinds, rest⟩ := fills
  rw [rest]
  unfold compute
  dsimp only
  generalize second.kind = later at kinds
  generalize first.kind = earlier at kinds
  cases kinds <;> rfl

/-- A dense layer is applied: its weights are kept, whether the input fits them or not. -/
theorem run_applyDense {state : EvalState} {name : String} {dense : Dense} {input : Vector32} :
    (applyDense id name dense input).run state =
      (dense.forward name input, state.keepWeights id dense input.length) := by
  unfold applyDense
  rw [Outcome.run_bind, run_modify]
  dsimp only
  cases dense.forward name input <;> rfl

/-- Applying a dense layer creates the weights it uses, or finds them. -/
theorem settled_applyDense {dense : Dense} {input : Vector32} {before after : EvalState}
    {outcome : Except GraphError Vector32} (found : before.network.layer? id = some layer)
    (isDense : layer.kind = .dense dense) {computation : EvalM Vector32}
    (applies : ∀ {state : EvalState} {found : Layer} {dense : Dense},
      state.network.layer? id = some found → layer.FillsTo found → found.kind = .dense dense →
        computation.run state = (applyDense id layer.name dense input).run state)
    (ended : computation.run before = (outcome, after)) :
    Settled feed (fun later => later.Turns feed id input) computation before outcome after := by
  rw [applies found (.refl layer) isDense, run_applyDense] at ended
  cases ended
  have fills := before.fillsTo_keepWeights found isDense input.length
  refine ⟨fills, fun later laterFills => ?_, fun _ _ remembers => remembers,
    fun later laterFills _ value same => ?_⟩
  · have weighted := laterFills.exists_weighted found
    rw [applies weighted ⟨isDense ▸ dense.fillsTo_weightsFor _, rfl⟩ rfl, run_applyDense,
      Dense.forward_again, EvalState.keepWeights_again weighted]
    rfl
  · refine .own (laterFills.exists_weighted found) ?_
    rw [Layer.result?]
    dsimp only
    rw [Option.isSome_some, if_pos rfl, Dense.forward_again, same]
    rfl

/-- Any other layer is applied by itself, or through other layers. -/
theorem settles_applyLayer {value : LayerId → EvalM Vector32}
    {apply : LayerId → Vector32 → EvalM Vector32} {input : Vector32}
    (found : base.layer? id = some layer) (numbered : layer.id = id)
    (notDense : layer.kind.dense? = none)
    (valued : ∀ id, Settles base feed (fun later => later.Yields feed id) (value id))
    (applied : ∀ child given, Settles base feed (fun later => later.Turns feed child given)
      (apply child given)) :
    Settles base feed (fun later => later.Turns feed id input)
      (applyLayer feed value apply layer input) := by
  have later? {later : Network} (fills : base.FillsTo later) : later.layer? id = some layer := by
    obtain ⟨same, sameFound, layerFills⟩ := fills.layers found
    rw [sameFound, layerFills.eq_of_notDense notDense]
  have own {result : Vector32} (results : layer.result? feed input = some result) :
      Settles base feed (fun later => later.Turns feed id input) (pure result) :=
    (settles_return result).imp fun later value fills same => by
      rw [same]
      exact .own (later? fills) results
  unfold applyLayer
  cases kind : layer.kind with
  | input size shape =>
      refine (settles_external layer.name).imp fun later value fills given => ?_
      exact .own (later? fills) (by rw [Layer.result?, kind]; exact given)
  | dense dense =>
      rw [kind] at notDense
      cases notDense
  | conditional text thenRoot elseRoot =>
      dsimp only
      rw [numbered]
      exact (valued id).imp fun later value fills yields =>
        .conditional (later? fills) (by rw [kind]; rfl) yields
  | composite children =>
      exact (settles_runChildren applied input children).imp fun later value fills feeds =>
        .composite (later? fills) kind feeds
  | test _ _ _ | repetition _ _ _ _ | template _ => exact settles_throw _
  | _ => exact own (by rw [Layer.result?, kind])

private theorem run_layer_of_absent {state : EvalState} (absent : state.network.layer? id = none) :
    (Evaluation.layer id).run state = (.error (.unknownLayer id), state) := by
  unfold Evaluation.layer
  simp only [Outcome.run_bind, run_get, absent]
  rfl

/-- A layer is looked up and applied. -/
theorem settles_applied {value : LayerId → EvalM Vector32}
    {apply : LayerId → Vector32 → EvalM Vector32} (input : Vector32)
    (numbered : base.Numbered)
    (valued : ∀ id, Settles base feed (fun later => later.Yields feed id) (value id))
    (applied : ∀ child given, Settles base feed (fun later => later.Turns feed child given)
      (apply child given)) :
    Settles base feed (fun later => later.Turns feed id input)
      (Evaluation.layer id >>= fun found => applyLayer feed value apply found input) := by
  intro before fills outcome after ended
  cases isFound : before.network.layer? id with
  | none =>
      rw [Outcome.run_bind, run_layer_of_absent isFound] at ended
      cases ended
      refine .idle (fun later laterFills => ?_) nofun
      rw [Outcome.run_bind, run_layer_of_absent (laterFills.layer?_eq_none isFound)]
  | some found =>
      obtain ⟨layer, isLayer, layerFills⟩ := fills.exists_earlier isFound
      have foundNumbered : found.id = id := layerFills.id.trans (numbered isLayer)
      cases isDense : found.kind.dense? with
      | some dense =>
          have kind : found.kind = .dense dense := by
            cases kind : found.kind with
            | dense other =>
                rw [kind] at isDense
                exact congrArg LayerKind.dense (Option.some.inj isDense)
            | _ =>
                rw [kind] at isDense
                cases isDense
          refine settled_applyDense isFound kind (fun {state later dense} laterFound laterFills
            laterDense => ?_) ended
          rw [Outcome.run_bind, run_layer laterFound]
          dsimp only
          rw [applyLayer, laterDense]
          dsimp only
          rw [laterFills.id, foundNumbered, laterFills.name]
      | none =>
          have same : found = layer :=
            layerFills.eq_of_notDense (layerFills.kind.dense?_eq_none isDense)
          subst same
          have rerun (state : EvalState) (stateFills : before.network.FillsTo state.network) :
              (Evaluation.layer id >>= fun found => applyLayer feed value apply found input).run
                state = (applyLayer feed value apply found input).run state := by
            obtain ⟨same, sameFound, sameFills⟩ := stateFills.layers isFound
            rw [Outcome.run_bind, run_layer sameFound, sameFills.eq_of_notDense isDense]
          rw [rerun before (.refl _)] at ended
          have settled := settles_applyLayer isLayer foundNumbered isDense valued applied before
            fills outcome after ended
          refine { settled with again := fun later laterFills => ?_ }
          rw [rerun _ (settled.fills.trans laterFills)]
          exact settled.again later laterFills

/-- A conditional layer has the value of the root that its condition selects, or one from
outside. -/
theorem settles_conditional {text : String} {thenRoot elseRoot : Option LayerId}
    (found : base.layer? id = some layer) (kind : layer.kind = .conditional text thenRoot elseRoot)
    {value : LayerId → EvalM Vector32}
    (valued : ∀ id, Settles base feed (fun later => later.Yields feed id) (value id)) :
    Settles base feed (fun later => later.Yields feed id) (do
      match ← selectRoot feed text thenRoot elseRoot with
      | some root => value root
      | none => external feed layer.name) := by
  unfold selectRoot
  cases parsed : Condition.parse text with
  | error fault => exact settles_throw fault
  | ok condition =>
      have chooses {later : Network} (fills : base.FillsTo later) :
          later.ChoosesBy id layer condition thenRoot elseRoot := by
        obtain ⟨same, sameFound, layerFills⟩ := fills.layers found
        rw [layerFills.eq_of_notDense (by rw [kind]; rfl)] at sameFound
        exact ⟨sameFound, text, kind, parsed⟩
      dsimp only
      cases decided : condition.evaluate feed.inputs with
      | error fault => exact settles_throw fault
      | ok holds =>
          rw [pure_bind]
          cases selected : if holds then thenRoot else elseRoot with
          | some root =>
              exact (valued root).imp fun later value fills yields =>
                .selected (chooses fills) decided selected yields
          | none =>
              exact (settles_external layer.name).imp fun later value fills given =>
                .unrooted (chooses fills) decided selected given

/-- The value of a layer is computed by the rules. -/
theorem settles_compute {value : LayerId → EvalM Vector32}
    {apply : LayerId → Vector32 → EvalM Vector32} (found : base.layer? id = some layer)
    (numbered : layer.id = id)
    (valued : ∀ id, Settles base feed (fun later => later.Yields feed id) (value id))
    (applied : ∀ child given, Settles base feed (fun later => later.Turns feed child given)
      (apply child given)) :
    Settles base feed (fun later => later.Yields feed id) (compute feed value apply layer) := by
  have gathers (notInput : layer.kind.isInput = false)
      (notConditional : layer.kind.isConditional = false) :
      Settles base feed (fun later => later.Yields feed id)
        (gather value layer.inputs >>= apply layer.id) := by
    rw [numbered]
    refine (settles_bind (settles_gather valued _) fun input => applied id input).imp
      fun later value fills means => ?_
    obtain ⟨input, gathers, turns⟩ := means
    obtain ⟨same, sameFound, layerFills⟩ := fills.layers found
    refine .computed sameFound ?_ ?_ (layerFills.inputs ▸ gathers) turns
    · rw [layerFills.kind.isInput, notInput]
    · rw [layerFills.kind.isConditional, notConditional]
  unfold compute
  cases kind : layer.kind with
  | input size shape =>
      refine (settles_external layer.name).imp fun later value fills given => ?_
      obtain ⟨same, sameFound, layerFills⟩ := fills.layers found
      refine .supplied sameFound ?_ (layerFills.name ▸ given)
      rw [layerFills.kind.isInput, kind]
      rfl
  | conditional text thenRoot elseRoot => exact settles_conditional found kind valued
  | _ =>
      rw [kind] at gathers
      exact gathers rfl rfl

end Layers

/-! ## The bound on the depth -/

section Depth

variable {base : Network} {feed : Feed}

/-- Within any depth, enough or not, values and applied layers keep to the rules. -/
theorem settles_within (numbered : base.Numbered) :
    ∀ depth, (∀ id, Settles base feed (fun later => later.Yields feed id)
        (valueWithin feed depth id)) ∧
      ∀ id input, Settles base feed (fun later => later.Turns feed id input)
        (applyWithin feed depth id input)
  | 0 => ⟨fun id => settles_throw (.endlessNesting id),
      fun id _ => settles_throw (.endlessNesting id)⟩
  | depth + 1 => by
      obtain ⟨valued, applied⟩ := settles_within numbered depth
      refine ⟨fun id => ?_, fun id input => ?_⟩
      · rw [valueWithin]
        exact settles_visit compute_of_fillsTo fun found =>
          settles_compute found (numbered found) valued applied
      · rw [applyWithin]
        exact settles_applied input numbered valued applied

/-- The depth that is granted depends on the number of layers alone. -/
theorem run_value {id : LayerId} {state : EvalState} (fills : base.FillsTo state.network) :
    (value feed id).run state = (valueWithin feed (depthFor base) id).run state := by
  have sameDepth : depthFor state.network = depthFor base := by
    rw [depthFor, depthFor, fills.size]
  unfold value
  rw [Outcome.run_bind, run_get]
  dsimp only
  rw [sameDepth]

private theorem settles_value (numbered : base.Numbered)
    (id : LayerId) : Settles base feed (fun later => later.Yields feed id) (value feed id) := by
  intro before fills outcome after ended
  rw [run_value fills] at ended
  have settled := (settles_within numbered _).1 id before fills outcome after ended
  refine ⟨settled.fills, fun later laterFills => ?_, settled.remembers, settled.means⟩
  exact (run_value ((fills.trans settled.fills).trans laterFills)).trans
    (settled.again later laterFills)

/-- What is found under the names of some layers: of the last layer with a name the value, and under
any other name what was there before. -/
structure Named (later : Network) (feed : Feed) (ids : List LayerId)
    (done results : List (String × Vector32)) : Prop where
  kept : ∀ name, (∀ id ∈ ids, later.nameOf id ≠ name) → results.lookup name = done.lookup name
  named : ∀ {earlier root rest}, ids = earlier ++ root :: rest →
    ∃ value, later.Yields feed root value ∧
      ((∀ other ∈ rest, later.nameOf other ≠ later.nameOf root) →
        results.lookup (later.nameOf root) = some value)

theorem Named.cons {later : Network} {first : LayerId} {rest : List LayerId}
    {done results : List (String × Vector32)} {value : Vector32}
    (yields : later.Yields feed first value)
    (named : Named later feed rest (Text.insertSorted (later.nameOf first) value done) results) :
    Named later feed (first :: rest) done results where
  kept name others := by
    obtain ⟨differs, others⟩ := List.forall_mem_cons.1 others
    rw [named.kept name others, Text.lookup_insertSorted_of_ne value differs.symm]
  named {earlier root others} split := by
    cases earlier with
    | nil =>
        cases split
        refine ⟨value, yields, fun last => ?_⟩
        rw [named.kept _ last, Text.lookup_insertSorted_self]
    | cons head earlier =>
        cases split
        exact named.named rfl

/-- The name of a layer is the same in every later network. -/
theorem settles_nameOf_bind {Result : Type} {Means : Network → Result → Prop} {id : LayerId}
    (next : String → EvalM Result)
    (settles : Settles base feed Means (next (base.nameOf id))) :
    Settles base feed Means (do
      let state ← get
      next (state.network.nameOf id)) := by
  intro before fills outcome after ended
  have rerun (state : EvalState) (stateFills : base.FillsTo state.network) :
      (do
        let state ← get
        next (state.network.nameOf id)).run state = (next (base.nameOf id)).run state := by
    rw [Outcome.run_bind, run_get]
    dsimp only
    rw [stateFills.nameOf]
  rw [rerun before fills] at ended
  have settled := settles before fills outcome after ended
  refine ⟨settled.fills, fun later laterFills => ?_, settled.remembers, settled.means⟩
  exact (rerun _ ((fills.trans settled.fills).trans laterFills)).trans
    (settled.again later laterFills)

/-- The values of some layers are found under their names. -/
theorem settles_valuesByName (numbered : base.Numbered) :
    ∀ (done : List (String × Vector32)) (ids : List LayerId),
      Settles base feed (fun later results => Named later feed ids done results)
        (valuesByName feed done ids)
  | done, [] =>
      (settles_return done).imp fun later results _ same => by
        refine ⟨fun name _ => by rw [same], fun split => ?_⟩
        cases List.append_eq_nil_iff.1 split.symm with
        | intro _ isNil => cases isNil
  | done, first :: rest => by
      refine (settles_bind (settles_value numbered first) fun value =>
        settles_nameOf_bind (fun name =>
          valuesByName feed (Text.insertSorted name value done) rest)
          (settles_valuesByName numbered _ rest)).imp fun later results fills means => ?_
      obtain ⟨value, yields, named⟩ := means
      rw [← fills.nameOf] at named
      exact .cons yields named

end Depth

theorem remembers_start (network later : Network) (feed : Feed) :
    Remembers later feed (EvalState.start network) :=
  fun _ _ => nofun

end Evaluation

namespace Network

/-- The weights that an evaluation has created make no difference to the same evaluation. -/
theorem forward_again {network : Network} (numbered : network.Numbered) (feed : Feed) :
    (network.forward feed).2.forward feed = network.forward feed := by
  rcases ended : (Evaluation.valuesByName feed [] network.forwardRoots).run
    (EvalState.start network) with ⟨outcome, after⟩
  have settled := Evaluation.settles_valuesByName numbered [] network.forwardRoots
    (EvalState.start network) (.refl network) outcome after ended
  have sameRoots : after.network.forwardRoots = network.forwardRoots :=
    forwardRoots_of_unweighted settled.fills.unweighted
  have rerun : (Evaluation.valuesByName feed [] network.forwardRoots).run
      (EvalState.start after.network) = (outcome, after) :=
    settled.again after.network (.refl _)
  have forwarded : network.forward feed = (outcome, after.network) := by
    rw [forward, ended]
  rw [forwarded, forward, sameRoots, rerun]

/-- A name that no forward root has does not appear in the results. -/
theorem lookup_eq_none_of_forward {network : Network} (numbered : network.Numbered) {feed : Feed}
    {results : List (String × Vector32)} (succeeded : (network.forward feed).1 = .ok results)
    {key : String} (noRoot : ∀ id ∈ network.forwardRoots, network.nameOf id ≠ key) :
    results.lookup key = none := by
  rcases ended : (Evaluation.valuesByName feed [] network.forwardRoots).run
    (EvalState.start network) with ⟨outcome, after⟩
  have settled := Evaluation.settles_valuesByName numbered [] network.forwardRoots
    (EvalState.start network) (.refl network) outcome after ended
  have isOutcome : (network.forward feed).1 = outcome := by
    rw [forward, ended]
  have named := settled.means after.network (.refl _) (Evaluation.remembers_start _ _ _) results
    (isOutcome.symm.trans succeeded)
  have fills : network.FillsTo after.network := settled.fills
  refine named.kept key fun id isRoot => ?_
  rw [fills.nameOf]
  exact noRoot id isRoot

end Network

end NetBlueprint
