import NetBlueprint.Proofs.Graph.Yielding

/-!
Contract: an evaluation comes to every value that the rules give.

A later network bears out the weights an evaluation has so far and the values it remembers. Whatever
value a layer has there by the rules, an evaluation of the layer finds it, or it goes round in a
loop: which values are remembered, which weights are still to be created and which layers are marked
makes no other difference.

Owns: that evaluations find the values which the rules give.
Does not own: that they find no others.
-/

namespace NetBlueprint

inductive GraphError.IsLoop : GraphError → Prop where
  | cycle (layer : String) : IsLoop (.cycle layer)
  | endlessNesting (id : LayerId) : IsLoop (.endlessNesting id)

namespace Evaluation

/-- The weights and the remembered values of a state are those of a later network. -/
structure Agrees (later : Network) (feed : Feed) (state : EvalState) : Prop where
  fills : state.network.FillsTo later
  remembers : Remembers later feed state

/-- How a computation ends that is to find a value. -/
inductive Arrived {Result : Type} (later : Network) (feed : Feed) (value : Result) :
    Except GraphError Result × EvalState → Prop where
  | found {after : EvalState} (agrees : Agrees later feed after) :
      Arrived later feed value (.ok value, after)
  | looped {fault : GraphError} {after : EvalState} (isLoop : fault.IsLoop) :
      Arrived later feed value (.error fault, after)

/-- Wherever a computation starts in agreement with a later network, it finds the value. -/
def Arrives {Result : Type} (later : Network) (feed : Feed) (computation : EvalM Result)
    (value : Result) : Prop :=
  ∀ before, Agrees later feed before → Arrived later feed value (computation.run before)

section Combinators

variable {Result Next : Type} {later : Network} {feed : Feed}

theorem arrives_pure (value : Result) : Arrives later feed (pure value) value :=
  fun _ agrees => .found agrees

theorem arrives_loop {fault : GraphError} (isLoop : fault.IsLoop) (value : Result) :
    Arrives later feed (throw fault) value :=
  fun _ _ => .looped isLoop

theorem arrives_bind {computation : EvalM Result} {next : Result → EvalM Next} {middle : Result}
    {value : Next} (first : Arrives later feed computation middle)
    (second : Arrives later feed (next middle) value) :
    Arrives later feed (computation >>= next) value := by
  intro before agrees
  have arrived := first before agrees
  rw [Outcome.run_bind]
  generalize computation.run before = ended at arrived
  cases arrived with
  | found agrees => exact second _ agrees
  | looped isLoop => exact .looped isLoop

private theorem arrives_external {name : String} {value : Vector32}
    (given : feed.inputs.lookup name = some value) :
    Arrives later feed (external feed name) value := by
  unfold external
  rw [given]
  exact arrives_pure value

private theorem arrives_gather {valueOf : LayerId → EvalM Vector32}
    (each : ∀ {id value}, later.Yields feed id value → Arrives later feed (valueOf id) value) :
    ∀ {ids whole}, later.Gathers feed ids whole → Arrives later feed (gather valueOf ids) whole
  | _, _, .nil => arrives_pure []
  | _, _, .cons head tail =>
      arrives_bind (each head) (arrives_bind (arrives_gather each tail) (arrives_pure _))

private theorem arrives_runChildren {apply : LayerId → Vector32 → EvalM Vector32}
    (each : ∀ {child given value}, later.Turns feed child given value →
      Arrives later feed (apply child given) value) :
    ∀ {input last children value}, later.Feeds feed input last children value →
      Arrives later feed (runChildren feed apply input last children) value
  | _, _, _, _, .nil => arrives_pure _
  | _, _, _, _, .cons head tail => arrives_bind (each head) (arrives_runChildren each tail)

end Combinators

/-! ## Visits -/

section Visits

variable {later : Network} {feed : Feed} {id : LayerId} {value : Vector32}

private theorem arrives_marked {computation : EvalM Vector32} (yields : later.Yields feed id value)
    (arrives : Arrives later feed computation value) :
    Arrives later feed (marked id computation) value := by
  intro before agrees
  have arrived := arrives (before.enter id) ⟨agrees.fills, agrees.remembers⟩
  rw [run_marked]
  generalize computation.run (before.enter id) = ended at arrived
  cases arrived with
  | found agrees =>
      refine .found ⟨agrees.fills, fun other stored member => ?_⟩
      rcases List.mem_cons.1 member with new | old
      · cases new
        exact yields
      · exact agrees.remembers other stored old
  | looped isLoop => exact .looped isLoop

/-- A value that is remembered is the one to be found, because there is no other. -/
theorem arrives_visit {computation : Layer → EvalM Vector32} {layer : Layer}
    (found : later.layer? id = some layer) (yields : later.Yields feed id value)
    (unweighted : ∀ {first second : Layer}, first.FillsTo second →
      computation second = computation first)
    (arrives : Arrives later feed (computation layer) value) :
    Arrives later feed (visit id computation) value := by
  intro before agrees
  obtain ⟨earlier, isFound, layerFills⟩ := agrees.fills.exists_earlier found
  rw [run_visit isFound]
  cases remembered : before.cache.lookup id with
  | some other =>
      have known := agrees.remembers id other (Table.mem_of_lookup remembered)
      cases known.unique yields
      exact .found agrees
  | none =>
      dsimp only
      split
      · exact .looped (.cycle _)
      · rw [← unweighted layerFills]
        exact arrives_marked yields arrives before agrees

end Visits

/-! ## Layers -/

section Layers

variable {later : Network} {feed : Feed} {id : LayerId} {layer : Layer} {input value : Vector32}

/-- A dense layer uses the weights that the later network has. -/
theorem arrives_applyDense {earlier : Layer} {dense : Dense} (found : later.layer? id = some layer)
    (layerFills : earlier.FillsTo layer) (isDense : earlier.kind = .dense dense)
    (result : layer.result? feed input = some value) :
    Arrives later feed (applyDense id layer.name dense input) value := by
  obtain ⟨other, isOther⟩ := layerFills.kind.exists_dense isDense
  have fills := layerFills.kind
  rw [isDense, isOther] at fills
  rw [Layer.result?, isOther] at result
  dsimp only at result
  split at result
  · rename_i isSome
    obtain ⟨weights, weighted⟩ := Option.isSome_iff_exists.1 isSome
    have computes : other.forward layer.name input = .ok value := by
      cases forwarded : other.forward layer.name input with
      | ok own =>
          rw [forwarded] at result
          exact congrArg Except.ok (Option.some.inj result)
      | error fault =>
          rw [forwarded] at result
          cases result
    have same := Dense.weightsFor_of_fillsTo fills weighted computes
    intro before agrees
    rw [run_applyDense, ← Dense.forward_again, same, computes]
    refine .found ⟨?_, agrees.remembers⟩
    rw [EvalState.keepWeights, same, ← isOther]
    exact agrees.fills.setKind found
  · cases result

/-- Any other layer is applied by itself, or through other layers. -/
theorem arrives_applyLayer {valueOf : LayerId → EvalM Vector32}
    {apply : LayerId → Vector32 → EvalM Vector32} (found : later.layer? id = some layer)
    (numbered : layer.id = id) (notDense : layer.kind.dense? = none)
    (valued : ∀ {id value}, later.Yields feed id value → Arrives later feed (valueOf id) value)
    (applied : ∀ {child given value}, later.Turns feed child given value →
      Arrives later feed (apply child given) value)
    (turns : later.Turns feed id input value) :
    Arrives later feed (applyLayer feed valueOf apply layer input) value := by
  have means := turns.cases found
  unfold applyLayer
  cases kind : layer.kind with
  | input size shape =>
      rw [kind] at means
      dsimp only at means
      rw [Layer.result?, kind] at means
      exact arrives_external means
  | dense dense =>
      rw [kind] at notDense
      cases notDense
  | conditional text thenRoot elseRoot =>
      rw [kind] at means
      dsimp only
      rw [numbered]
      exact valued means
  | composite children =>
      rw [kind] at means
      exact arrives_runChildren applied means
  | test _ _ _ | repetition _ _ _ _ | template _ =>
      rw [kind] at means
      dsimp only at means
      rw [Layer.result?, kind] at means
      cases means
  | _ =>
      rw [kind] at means
      dsimp only at means
      rw [Layer.result?, kind] at means
      cases means
      exact arrives_pure _

/-- A layer is looked up and applied. -/
theorem arrives_applied {valueOf : LayerId → EvalM Vector32}
    {apply : LayerId → Vector32 → EvalM Vector32}
    (numbered : later.Numbered)
    (valued : ∀ {id value}, later.Yields feed id value → Arrives later feed (valueOf id) value)
    (applied : ∀ {child given value}, later.Turns feed child given value →
      Arrives later feed (apply child given) value)
    (turns : later.Turns feed id input value) :
    Arrives later feed
      (Evaluation.layer id >>= fun found => applyLayer feed valueOf apply found input) value := by
  obtain ⟨layer, found⟩ := turns.exists_layer
  intro before agrees
  obtain ⟨earlier, isFound, layerFills⟩ := agrees.fills.exists_earlier found
  rw [Outcome.run_bind, run_layer isFound]
  dsimp only
  cases isDense : earlier.kind with
  | dense dense =>
      have result : layer.result? feed input = some value := by
        have means := turns.cases found
        obtain ⟨other, isOther⟩ := layerFills.kind.exists_dense isDense
        rw [isOther] at means
        exact means
      unfold applyLayer
      rw [isDense, ← layerFills.id, numbered found, ← layerFills.name]
      exact arrives_applyDense found layerFills isDense result before agrees
  | _ =>
      have same : layer = earlier := layerFills.eq_of_notDense (by rw [isDense]; rfl)
      rw [← same] at isDense ⊢
      exact arrives_applyLayer found (numbered found) (by rw [isDense]; rfl) valued applied turns
        before agrees

/-- A conditional layer has the value of the root that its condition selects, or the one
supplied. -/
theorem arrives_conditional {text : String} {thenRoot elseRoot : Option LayerId}
    (found : later.layer? id = some layer) (kind : layer.kind = .conditional text thenRoot elseRoot)
    {valueOf : LayerId → EvalM Vector32}
    (valued : ∀ {id value}, later.Yields feed id value → Arrives later feed (valueOf id) value)
    (yields : later.Yields feed id value) :
    Arrives later feed (do
      match ← selectRoot feed text thenRoot elseRoot with
      | some root => valueOf root
      | none => external feed layer.name) value := by
  obtain ⟨condition, holds, parsed, decided, means⟩ := yields.of_conditional found kind
  unfold selectRoot
  rw [parsed]
  dsimp only
  rw [decided]
  dsimp only
  rw [pure_bind]
  cases selected : if holds then thenRoot else elseRoot with
  | some root =>
      rw [selected] at means
      exact valued means
  | none =>
      rw [selected] at means
      exact arrives_external means

/-- The value of a layer is computed as the rules say. -/
theorem arrives_compute {valueOf : LayerId → EvalM Vector32}
    {apply : LayerId → Vector32 → EvalM Vector32} (found : later.layer? id = some layer)
    (numbered : layer.id = id)
    (valued : ∀ {id value}, later.Yields feed id value → Arrives later feed (valueOf id) value)
    (applied : ∀ {child given value}, later.Turns feed child given value →
      Arrives later feed (apply child given) value)
    (yields : later.Yields feed id value) :
    Arrives later feed (compute feed valueOf apply layer) value := by
  have gathers (notInput : layer.kind.isInput = false)
      (notConditional : layer.kind.isConditional = false) :
      Arrives later feed (gather valueOf layer.inputs >>= apply layer.id) value := by
    obtain ⟨input, gathers, turns⟩ := yields.exists_input found notInput notConditional
    rw [numbered]
    exact arrives_bind (arrives_gather valued gathers) (applied turns)
  unfold compute
  cases kind : layer.kind with
  | input size shape =>
      exact arrives_external (yields.supplied_of_isInput found (by rw [kind]; rfl))
  | conditional text thenRoot elseRoot => exact arrives_conditional found kind valued yields
  | _ =>
      rw [kind] at gathers
      exact gathers rfl rfl

end Layers

/-! ## The bound on the depth -/

section Depth

variable {later : Network} {feed : Feed}

/-- Within any depth the values are found that the rules give, unless it is too small. -/
theorem arrives_within (numbered : later.Numbered) :
    ∀ depth, (∀ {id value}, later.Yields feed id value →
        Arrives later feed (valueWithin feed depth id) value) ∧
      ∀ {id input value}, later.Turns feed id input value →
        Arrives later feed (applyWithin feed depth id input) value
  | 0 => ⟨fun {id _} _ => arrives_loop (.endlessNesting id) _,
      fun {id _ _} _ => arrives_loop (.endlessNesting id) _⟩
  | depth + 1 => by
      obtain ⟨valued, applied⟩ := arrives_within numbered depth
      refine ⟨fun {id value} yields => ?_, fun {id input value} turns => ?_⟩
      · obtain ⟨layer, found⟩ := yields.exists_layer
        rw [valueWithin]
        exact arrives_visit found yields compute_of_fillsTo
          (arrives_compute found (numbered found) valued applied yields)
      · rw [applyWithin]
        exact arrives_applied numbered valued applied turns

/-- Every evaluation of a layer finds the value that the rules give, or goes round in a loop. -/
theorem arrives_value (numbered : later.Numbered)
    {id : LayerId} {value : Vector32} (yields : later.Yields feed id value) :
    Arrives later feed (Evaluation.value feed id) value := by
  intro before agrees
  rw [run_value (.refl before.network)]
  exact (arrives_within numbered _).1 yields before agrees

end Depth

end Evaluation

namespace Network

variable {network : Network} {feed : Feed}

/-- Where an evaluation of all forward roots succeeds, none of them alone goes round in a loop. -/
theorem not_isLoop_of_succeeded (wellFormed : network.WellFormed) (readable : network.Readable)
    {current : Network} (same : current.unweighted = network.unweighted)
    {results : List (String × Vector32)} (succeeded : (current.forward feed).1 = .ok results)
    {root : LayerId} (isRoot : root ∈ network.forwardRoots) {fault : GraphError}
    {after : EvalState}
    (failed : (Evaluation.value feed root).run (EvalState.start current) = (.error fault, after)) :
    ¬ fault.IsLoop := by
  have leaves := Evaluation.behaves_value wellFormed readable isRoot
    (lt_size_of_forwardRoots wellFormed isRoot) (EvalState.start current) ⟨rfl, same, .nil⟩
    (.error fault) after failed
  intro isLoop
  cases isLoop with
  | endlessNesting id => cases leaves.foreseen _ rfl
  | cycle name =>
      obtain ⟨_, ⟨_, finished, _, grounded, covers⟩ | ⟨other, ended, _⟩⟩ :=
        forward_cases wellFormed readable same feed
      · cases leaves.foreseen _ rfl with
        | cycle _ reaches loops =>
            obtain ⟨start, isStart, leads⟩ := reaches
            exact grounded.not_transGen_self
              (grounded.mem_of_reflTransGen (covers start isStart) leads) loops
      · rw [ended] at succeeded
        cases succeeded

/-- Where an evaluation of all forward roots succeeds, each of them alone has a value, and of the
last one with a name it is the value under that name. -/
theorem value_of_forward (wellFormed : network.WellFormed) (readable : network.Readable)
    {current : Network} (same : current.unweighted = network.unweighted)
    {results : List (String × Vector32)} (succeeded : (current.forward feed).1 = .ok results)
    {earlier rest : List LayerId} {root : LayerId}
    (roots : current.forwardRoots = earlier ++ root :: rest) :
    ∃ value, ((Evaluation.value feed root).run (EvalState.start current)).1 = .ok value ∧
      ((∀ other ∈ rest, current.nameOf other ≠ current.nameOf root) →
        results.lookup (current.nameOf root) = some value) := by
  have numbered : current.Numbered := Numbered.of_unweighted wellFormed.numbered same
  have isRoot : root ∈ network.forwardRoots := by
    rw [← forwardRoots_of_unweighted same, roots]
    exact List.mem_append_right _ List.mem_cons_self
  rcases ended : (Evaluation.valuesByName feed [] current.forwardRoots).run
    (EvalState.start current) with ⟨outcome, after⟩
  have settled := Evaluation.settles_valuesByName numbered [] current.forwardRoots
    (EvalState.start current) (.refl current) outcome after ended
  have fills : current.FillsTo after.network := settled.fills
  have isOutcome : (current.forward feed).1 = outcome := by
    rw [forward, ended]
  obtain ⟨value, yields, named⟩ := (settled.means after.network (.refl _)
    (Evaluation.remembers_start _ _ _) results (isOutcome.symm.trans succeeded)).named roots
  have arrived := Evaluation.arrives_value (fills.numbered numbered) yields
    (EvalState.start current) ⟨fills, Evaluation.remembers_start _ _ _⟩
  refine ⟨value, ?_, fun last => ?_⟩
  · rcases alone : (Evaluation.value feed root).run (EvalState.start current) with ⟨own, left⟩
    rw [alone] at arrived
    cases arrived with
    | found _ => rfl
    | looped isLoop =>
        exact absurd isLoop
          (not_isLoop_of_succeeded wellFormed readable same succeeded isRoot alone)
  · rw [← fills.nameOf root]
    refine named fun other member => ?_
    rw [fills.nameOf, fills.nameOf]
    exact last other member

end Network

end NetBlueprint
