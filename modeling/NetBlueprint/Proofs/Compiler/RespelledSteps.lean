import NetBlueprint.Compiler.Run
import NetBlueprint.Proofs.Compiler.RespelledStates
import NetBlueprint.Proofs.Compiler.Steps

/-!
Contract: single steps of two runs that differ in the marks of suffixes only.

From states in step, a step that draws no suffix fails in both runs with faults of one kind, or it
succeeds in both, with results that are related and with states that are in step again.

Owns: what it means to stay in step, and the steps that draw nothing.

Does not own: steps that draw, and constructs that compile the instructions inside them.
-/

namespace NetBlueprint.Compile

variable {pairs : List (String × String)} {Result OtherResult Next OtherNext : Type}

/-! ## Staying in step -/

/-- Both runs fail with faults of one kind, or both succeed with results that are related and states
that are in step. -/
inductive EndInStep (pairs : List (String × String)) (Results : Result → OtherResult → Prop) :
    Except CompileFault Result × CompileState → Except CompileFault OtherResult × CompileState →
      Prop where
  | failed {fault otherFault : CompileFault} (faults : fault.Alike otherFault)
      (after otherAfter : CompileState) :
      EndInStep pairs Results (.error fault, after) (.error otherFault, otherAfter)
  | succeeded {value : Result} {otherValue : OtherResult} {after otherAfter : CompileState}
      (results : Results value otherValue) (states : after.InStep pairs otherAfter) :
      EndInStep pairs Results (.ok value, after) (.ok otherValue, otherAfter)

/-- Two actions that draw no suffix and keep their runs in step. -/
structure StayInStep (pairs : List (String × String)) (Results : Result → OtherResult → Prop)
    (action : CompileM Result) (other : CompileM OtherResult) : Prop where
  ends : ∀ {before otherBefore}, before.InStep pairs otherBefore →
    EndInStep pairs Results (action.run before) (other.run otherBefore)

section Combinators

variable {Results : Result → OtherResult → Prop} {LastResults : Next → OtherNext → Prop}

/-- Results that are related keep runs in step. -/
theorem stayInStep_pure {value : Result} {otherValue : OtherResult}
    (results : Results value otherValue) :
    StayInStep pairs Results (pure value) (pure otherValue) :=
  ⟨fun states => .succeeded results states⟩

theorem stayInStep_throw {fault otherFault : CompileFault} (faults : fault.Alike otherFault) :
    StayInStep pairs Results (throw fault) (throw otherFault) :=
  ⟨fun _ => .failed faults _ _⟩

/-- Nothing follows a fault. -/
theorem stayInStep_throw_bind {fault otherFault : CompileFault} (faults : fault.Alike otherFault)
    (next : Result → CompileM Next) (otherNext : OtherResult → CompileM OtherNext) :
    StayInStep pairs LastResults (throw fault >>= next) (throw otherFault >>= otherNext) :=
  ⟨fun _ => .failed faults _ _⟩

/-- Two parts that keep runs in step do so one after the other. -/
theorem stayInStep_bind {action : CompileM Result} {other : CompileM OtherResult}
    {next : Result → CompileM Next} {otherNext : OtherResult → CompileM OtherNext}
    (first : StayInStep pairs Results action other)
    (second : ∀ value otherValue, Results value otherValue →
      StayInStep pairs LastResults (next value) (otherNext otherValue)) :
    StayInStep pairs LastResults (action >>= next) (other >>= otherNext) := by
  refine ⟨fun {before otherBefore} states => ?_⟩
  have ends := first.ends states
  rw [Outcome.run_bind, Outcome.run_bind]
  generalize action.run before = outcome at ends ⊢
  generalize other.run otherBefore = otherOutcome at ends ⊢
  cases ends with
  | failed faults after otherAfter => exact .failed faults after otherAfter
  | succeeded results between => exact (second _ _ results).ends between

/-- A result that is the same in both runs is handed on. -/
theorem stayInStep_bind_eq {action other : CompileM Result} {next : Result → CompileM Next}
    {otherNext : Result → CompileM OtherNext} (first : StayInStep pairs (· = ·) action other)
    (second : ∀ value, StayInStep pairs LastResults (next value) (otherNext value)) :
    StayInStep pairs LastResults (action >>= next) (other >>= otherNext) :=
  stayInStep_bind first fun value _ same => same ▸ second value

/-- The states that are looked at are in step. -/
theorem stayInStep_get_bind {next : CompileState → CompileM Next}
    {otherNext : CompileState → CompileM OtherNext}
    (each : ∀ {state otherState}, state.InStep pairs otherState →
      StayInStep pairs LastResults (next state) (otherNext otherState)) :
    StayInStep pairs LastResults (get >>= next) (get >>= otherNext) :=
  ⟨fun states => (each states).ends states⟩

/-- Suffixes of runs in step stand for each other one by one. -/
theorem stayInStep_of_pairing {action : CompileM Result} {other : CompileM OtherResult}
    (stays : Suffix.Pairing pairs → StayInStep pairs Results action other) :
    StayInStep pairs Results action other :=
  ⟨fun states => (stays states.pairing).ends states⟩

theorem stayInStep_set {state otherState : CompileState} (states : state.InStep pairs otherState) :
    StayInStep pairs (· = ·) (set state : CompileM PUnit) (set otherState) :=
  ⟨fun _ => .succeeded rfl states⟩

theorem stayInStep_modify {change otherChange : CompileState → CompileState}
    (keeps : ∀ state, (change state).usedSuffixes = state.usedSuffixes)
    (otherKeeps : ∀ state, (otherChange state).usedSuffixes = state.usedSuffixes)
    (changes : ∀ {state otherState}, state.InStep pairs otherState →
      (change state).Corresponds pairs (otherChange otherState)) :
    StayInStep pairs (· = ·) (modify change : CompileM PUnit) (modify otherChange) :=
  ⟨fun states => .succeeded rfl
    { corresponds := changes states
      pairing := states.pairing
      used := (keeps _).trans states.used
      otherUsed := (otherKeeps _).trans states.otherUsed }⟩

theorem stayInStep_log (line otherLine : String) :
    StayInStep pairs (· = ·) (log line) (log otherLine) := by
  refine stayInStep_modify (fun _ => rfl) (fun _ => rfl) fun states => ?_
  exact { states.corresponds with }

theorem stayInStep_expression {outcome : Except ExprError Result}
    {other : Except ExprError OtherResult} (fill : Substitution.BothFill Results outcome other) :
    StayInStep pairs Results (expression outcome) (expression other) := by
  cases fill with
  | error => exact stayInStep_throw rfl
  | ok results => exact stayInStep_pure results

end Combinators

private theorem resolveHere_eq {state otherState : CompileState}
    (states : state.InStep pairs otherState) {name otherName : String}
    (names : RespelledText pairs name otherName) :
    state.resolveExact state.current name =
      otherState.resolveExact otherState.current otherName := by
  rw [states.corresponds.current,
    states.corresponds.resolveExact_eq _ (sameKey_text states.pairing names)]

/-! ## Layers -/

theorem stayInStep_addLayer {name otherName : String} {kind otherKind : LayerKind}
    (names : LayerName pairs name otherName) (kinds : kind.SameUpToTexts otherKind) :
    StayInStep pairs (· = ·) (addLayer name kind) (addLayer otherName otherKind) := by
  refine stayInStep_get_bind fun states => ?_
  have added : StayInStep pairs (· = ·)
      (modify fun state => state.withLayer name kind : CompileM PUnit)
      (modify fun state => state.withLayer otherName otherKind) :=
    stayInStep_modify (fun _ => rfl) (fun _ => rfl) fun states =>
      states.corresponds.withLayer states.pairing names kinds
  exact stayInStep_bind_eq added fun _ =>
    stayInStep_pure states.corresponds.network.size_eq

private theorem contains_eq (pairing : Suffix.Pairing pairs) {names otherNames : List String}
    (related : List.Forall₂ (RespelledText pairs) names otherNames) {name otherName : String}
    (respelled : RespelledText pairs name otherName) :
    names.contains name = otherNames.contains otherName := by
  induction related with
  | nil => rfl
  | cons first _ inductionHypothesis =>
      rw [List.contains_cons, List.contains_cons, inductionHypothesis,
        beq_eq_beq.2 (equalAlike_text pairing respelled first)]

private theorem rel_erase (pairing : Suffix.Pairing pairs) {names otherNames : List String}
    (related : List.Forall₂ (RespelledText pairs) names otherNames) {name otherName : String}
    (respelled : RespelledText pairs name otherName) :
    List.Forall₂ (RespelledText pairs) (names.erase name) (otherNames.erase otherName) := by
  induction related with
  | nil => exact .nil
  | cons first rest inductionHypothesis =>
      rw [List.erase_cons, List.erase_cons, beq_eq_beq.2 (equalAlike_text pairing first respelled)]
      split
      · exact rest
      · exact .cons first inductionHypothesis

private theorem rel_withoutName (pairing : Suffix.Pairing pairs)
    {registry otherRegistry : List (String × Instruction)}
    (related : List.Forall₂ (RegisteredCorresponds pairs) registry otherRegistry)
    {name otherName : String} (respelled : RespelledName pairs name otherName) :
    List.Forall₂ (RegisteredCorresponds pairs) (registry.filter fun entry => entry.1 != name)
      (otherRegistry.filter fun entry => entry.1 != otherName) := by
  induction related with
  | nil => exact .nil
  | cons first _ inductionHypothesis =>
      rw [List.filter_cons, List.filter_cons, bne, bne,
        beq_eq_beq.2 (first.key.eq_iff pairing respelled)]
      split
      · exact .cons first inductionHypothesis
      · exact inductionHypothesis

private theorem rel_registered (pairing : Suffix.Pairing pairs)
    {registry otherRegistry : List (String × Instruction)}
    (related : List.Forall₂ (RegisteredCorresponds pairs) registry otherRegistry)
    {name otherName : String} (respelled : RespelledText pairs name otherName) :
    Option.Rel (fun found otherFound =>
        RegisteredCorresponds pairs (name, found) (otherName, otherFound))
      (registry.lookup name) (otherRegistry.lookup otherName) :=
  Table.rel_lookup related fun entry => equalAlike_text pairing respelled entry.key.respelled

/-- Both runs pass an instruction over, or neither does. -/
theorem stayInStep_takeAhead {name otherName : String} {instruction other : Instruction}
    (names : RespelledName pairs name otherName)
    (instructions : instruction.Corresponds pairs other) :
    StayInStep pairs (· = ·) (takeAhead name instruction) (takeAhead otherName other) := by
  refine stayInStep_get_bind fun {state otherState} states => ?_
  have sameListed : state.compiledAhead.contains name =
      otherState.compiledAhead.contains otherName :=
    contains_eq states.pairing states.corresponds.compiledAhead names.respelled
  have sameFound : (state.registry.lookup name).any (fun found => found.same instruction) =
      (otherState.registry.lookup otherName).any fun found => found.same other := by
    have found := rel_registered states.pairing states.corresponds.registry names.respelled
    generalize state.registry.lookup name = registered at found ⊢
    generalize otherState.registry.lookup otherName = otherRegistered at found ⊢
    cases found with
    | none => rfl
    | some entry => exact entry.instruction.same_eq states.pairing instructions
  rw [sameListed, sameFound]
  split
  · have taken : StayInStep pairs (· = ·)
        (set { state with
          compiledAhead := state.compiledAhead.erase name
          registry := state.registry.filter fun entry => entry.1 != name } : CompileM PUnit)
        (set { otherState with
          compiledAhead := otherState.compiledAhead.erase otherName
          registry := otherState.registry.filter fun entry => entry.1 != otherName }) :=
      stayInStep_set
        { states with
          corresponds :=
            { states.corresponds with
              compiledAhead :=
                rel_erase states.pairing states.corresponds.compiledAhead names.respelled
              registry := rel_withoutName states.pairing states.corresponds.registry names } }
    exact stayInStep_bind_eq taken fun _ => stayInStep_pure rfl
  · exact stayInStep_pure rfl

private theorem stayInStep_newLayer {spec other : LayerSpec}
    (specs : spec.Corresponds pairs other) :
    StayInStep pairs (· = ·) (newLayer spec) (newLayer other) := by
  have kinds := specs.layerKind
  unfold newLayer
  generalize spec.layerKind = kind at kinds ⊢
  generalize other.layerKind = otherKind at kinds ⊢
  cases kinds with
  | error faults => exact stayInStep_throw faults
  | ok kinds =>
      exact stayInStep_bind_eq (stayInStep_addLayer (.respelled specs.name) kinds) fun _ =>
        stayInStep_log _ _

/-- A declaration adds a layer in both runs, or fails in both. -/
theorem stayInStep_layer {spec other : LayerSpec} (specs : spec.Corresponds pairs other) :
    StayInStep pairs (· = ·) (layer spec) (layer other) := by
  refine stayInStep_bind_eq (stayInStep_takeAhead specs.name (.layer specs)) fun taken => ?_
  split
  · exact stayInStep_log _ _
  refine stayInStep_get_bind fun {state otherState} states => ?_
  have same : SameKey pairs spec.name other.name :=
    sameKey_text states.pairing specs.name.respelled
  have sameVisible : (state.inCurrentScope? spec.name).any (sameInterface spec) =
      (otherState.inCurrentScope? other.name).any (sameInterface other) := by
    have found := states.corresponds.inCurrentScope?_rel same
    generalize state.inCurrentScope? spec.name = visible at found ⊢
    generalize otherState.inCurrentScope? other.name = otherVisible at found ⊢
    cases found with
    | none => rfl
    | some layers =>
        rw [Option.any_some, Option.any_some, sameInterface, sameInterface, layers.kind.isInput,
          layers.kind.isOutput, specs.isInput, specs.isOutput]
  rw [sameVisible, specs.isInput, specs.isOutput]
  split
  · exact stayInStep_log _ _
  split
  · refine stayInStep_get_bind fun {state otherState} states => ?_
    have sameInput : state.globalInput? spec.name = otherState.globalInput? other.name :=
      lookup_eq states.corresponds.inputCache same
    rw [sameInput]
    split
    · rename_i id _
      have shared : StayInStep pairs (· = ·)
          (modify fun state => state.registered spec.name id : CompileM PUnit)
          (modify fun state => state.registered other.name id) :=
        stayInStep_modify (fun _ => rfl) (fun _ => rfl) fun states =>
          states.corresponds.registered states.pairing (.respelled specs.name) id
      exact stayInStep_bind_eq shared fun _ => stayInStep_log _ _
    · exact stayInStep_newLayer specs
  · exact stayInStep_newLayer specs

/-! ## Connections -/

section Connections

variable {source target otherSource otherTarget : String}

private theorem stayInStep_autoInput (sources : RespelledEndpoint pairs source otherSource) :
    StayInStep pairs (· = ·) (autoInput source) (autoInput otherSource) := by
  refine stayInStep_get_bind fun {state otherState} states => ?_
  have sameBase : ((state.resolveExact state.current Name.autoInputBase).bind
        state.network.layer?).any (fun layer => layer.kind.isInput) =
      ((otherState.resolveExact otherState.current Name.autoInputBase).bind
        otherState.network.layer?).any fun layer => layer.kind.isInput := by
    rw [resolveHere_eq states (.refl_of_plain (by decide))]
    cases otherState.resolveExact otherState.current Name.autoInputBase with
    | none => rfl
    | some id =>
        exact states.corresponds.network.any_eq LayerKind.isInput (fun same => same.isInput) id
  dsimp only
  rw [Respelled.isAutoInput_eq sources.respelled, resolveHere_eq states sources.respelled, sameBase]
  split
  · exact stayInStep_pure rfl
  split
  · rename_i isAuto _
    -- Nothing stands for no auto-input.
    rcases sources.cases with ⟨rfl, rfl⟩ | name
    · exact absurd (show (!Name.isAutoInput "" || _) = true from rfl) isAuto
    · exact stayInStep_bind_eq (stayInStep_addLayer (.respelled name) (.same _)) fun _ =>
        stayInStep_log _ _
  · exact stayInStep_pure rfl

/-- Both runs refuse the endpoints of a connection, or add the same input. -/
theorem stayInStep_startConnect (sources : RespelledEndpoint pairs source otherSource)
    (targets : RespelledEndpoint pairs target otherTarget) :
    StayInStep pairs (· = ·) (startConnect source target)
      (startConnect otherSource otherTarget) := by
  unfold startConnect
  dsimp only
  rw [Respelled.hasBrackets_eq sources.respelled, Respelled.hasBrackets_eq targets.respelled]
  split
  · refine stayInStep_throw_bind ?_ _ _
    rfl
  split
  · refine stayInStep_throw_bind ?_ _ _
    rfl
  · exact stayInStep_get_bind fun states =>
      stayInStep_bind_eq (stayInStep_autoInput sources) fun _ =>
        stayInStep_pure states.corresponds.current

theorem stayInStep_isUnknown (scope : ScopeId)
    (sources : RespelledEndpoint pairs source otherSource) :
    StayInStep pairs (· = ·) (isUnknown scope source) (isUnknown scope otherSource) := by
  refine stayInStep_get_bind fun states => stayInStep_pure ?_
  rw [states.corresponds.resolveExact_eq scope (sameKey_text states.pairing sources.respelled)]

theorem stayInStep_finishConnect (scope : ScopeId)
    (sources : RespelledEndpoint pairs source otherSource)
    (targets : RespelledEndpoint pairs target otherTarget) :
    StayInStep pairs (· = ·) (finishConnect scope source target)
      (finishConnect scope otherSource otherTarget) := by
  refine stayInStep_get_bind fun {state otherState} states => ?_
  have sameEmpty : ([source, target].filter fun endpoint =>
        (state.resolve scope endpoint).isNone).isEmpty =
      ([otherSource, otherTarget].filter fun endpoint =>
        (otherState.resolve scope endpoint).isNone).isEmpty := by
    simp only [List.filter_cons, List.filter_nil,
      states.corresponds.resolve_eq states.pairing scope sources,
      states.corresponds.resolve_eq states.pairing scope targets]
    split <;> split <;> rfl
  have recorded (flagged : Bool) : StayInStep pairs (· = ·)
      (record ⟨source, target, scope, flagged⟩)
      (record ⟨otherSource, otherTarget, scope, flagged⟩) := by
    refine stayInStep_modify (fun _ => rfl) (fun _ => rfl) fun states =>
      { states.corresponds with pending := ?_ }
    dsimp only
    rw [Array.toList_push, Array.toList_push]
    exact List.rel_append states.corresponds.pending (.cons ⟨sources, targets, rfl⟩ .nil)
  dsimp only
  rw [sameEmpty]
  refine stayInStep_bind_eq (recorded _) fun _ => ?_
  split
  · exact stayInStep_log _ _
  · refine stayInStep_bind_eq (stayInStep_log _ _) fun _ => ?_
    exact stayInStep_modify (fun _ => rfl) (fun _ => rfl) fun states =>
      { states.corresponds with network := states.corresponds.network.addIssue _ _ }

end Connections

/-! ## Compiling ahead -/

/-- Both runs turn to a name, or neither does. -/
theorem stayInStep_startAhead {name otherName : String}
    (names : RespelledText pairs name otherName) :
    StayInStep pairs
      (Option.Rel fun turned otherTurned =>
        turned.1.Corresponds pairs otherTurned.1 ∧ turned.2 = otherTurned.2)
      (startAhead name) (startAhead otherName) := by
  refine stayInStep_get_bind fun {state otherState} states => ?_
  rw [contains_eq states.pairing states.corresponds.compiledAhead names,
    contains_eq states.pairing states.corresponds.aheadInProgress names]
  split
  · exact stayInStep_pure .none
  have found := rel_registered states.pairing states.corresponds.registry names
  generalize state.registry.lookup name = registered at found ⊢
  generalize otherState.registry.lookup otherName = otherRegistered at found ⊢
  cases found with
  | none => exact stayInStep_pure .none
  | @some instruction otherInstruction entry =>
      have instructions := entry.instruction
      have turned : StayInStep pairs
          (Option.Rel fun turned otherTurned =>
            turned.1.Corresponds pairs otherTurned.1 ∧ turned.2 = otherTurned.2)
          (do
            modify fun state => { state with aheadInProgress := name :: state.aheadInProgress }
            log s!"lazy: compiling '{name}' ahead of its declaration"
            modify fun state => { state with current := 0 }
            return some (instruction, state.current) : CompileM (Option (Instruction × ScopeId)))
          (do
            modify fun state => { state with aheadInProgress := otherName :: state.aheadInProgress }
            log s!"lazy: compiling '{otherName}' ahead of its declaration"
            modify fun state => { state with current := 0 }
            return some (otherInstruction, otherState.current)) := by
        refine stayInStep_bind_eq (stayInStep_modify (fun _ => rfl) (fun _ => rfl) fun states =>
          { states.corresponds with
            aheadInProgress := .cons names states.corresponds.aheadInProgress }) fun _ => ?_
        refine stayInStep_bind_eq (stayInStep_log _ _) fun _ => ?_
        refine stayInStep_bind_eq (stayInStep_modify (fun _ => rfl) (fun _ => rfl) fun states =>
          { states.corresponds with current := rfl }) fun _ => ?_
        exact stayInStep_pure (.some ⟨instructions, states.corresponds.current⟩)
      cases instructions with
      | templateDef => exact stayInStep_pure .none
      | _ => exact turned

theorem stayInStep_finishAhead {name otherName : String}
    (names : RespelledText pairs name otherName) (saved : ScopeId) :
    StayInStep pairs (· = ·) (finishAhead name saved) (finishAhead otherName saved) :=
  stayInStep_modify (fun _ => rfl) (fun _ => rfl) fun states =>
    { states.corresponds with
      current := rfl
      aheadInProgress := rel_erase states.pairing states.corresponds.aheadInProgress names
      compiledAhead := .cons names states.corresponds.compiledAhead }

/-! ## Loops and templates -/

private theorem stayInStep_bound (counter : String) {text otherText : String}
    (texts : RespelledText pairs text otherText) :
    StayInStep pairs (· = ·) (bound counter text) (bound counter otherText) := by
  have evaluated := Respelled.evaluate texts
  unfold bound
  generalize Expr.evaluate (unbracket text) = outcome at evaluated ⊢
  generalize Expr.evaluate (unbracket otherText) = otherOutcome at evaluated ⊢
  cases evaluated with
  | error => exact stayInStep_throw rfl
  | ok same => exact stayInStep_pure same

theorem stayInStep_loopRange (counter : String) {first last otherFirst otherLast : String}
    (firsts : RespelledText pairs first otherFirst) (lasts : RespelledText pairs last otherLast)
    (size otherSize : Nat) :
    StayInStep pairs (· = ·) (loopRange counter first last size)
      (loopRange counter otherFirst otherLast otherSize) := by
  rw [loopRange_eq, loopRange_eq]
  refine stayInStep_bind_eq (stayInStep_bound counter firsts) fun low => ?_
  refine stayInStep_bind_eq (stayInStep_bound counter lasts) fun high => ?_
  exact stayInStep_bind_eq (stayInStep_log _ _) fun _ => stayInStep_pure rfl

theorem stayInStep_templateDef {name : String} {parameters : List String}
    {body otherBody : List Instruction} (isLabel : Suffix.IsLabel name.toList)
    (definitions : (Instruction.templateDef name parameters body).Corresponds pairs
      (.templateDef name parameters otherBody)) :
    StayInStep pairs (· = ·) (templateDef name parameters body)
      (templateDef name parameters otherBody) := by
  refine stayInStep_bind_eq (stayInStep_modify (fun _ => rfl) (fun _ => rfl) fun states =>
    { states.corresponds with
      network := states.corresponds.network.registerTemplate isLabel definitions }) fun _ => ?_
  exact stayInStep_log _ _

/-- Both runs find a template, or neither does. -/
theorem stayInStep_findTemplate {name otherName : String}
    (names : RespelledText pairs name otherName) :
    StayInStep pairs
      (Option.Rel fun definition otherDefinition => definition.Corresponds pairs otherDefinition ∧
        Suffix.IsLabel name.toList ∧ name = otherName)
      (findTemplate name) (findTemplate otherName) := by
  refine stayInStep_get_bind fun {state otherState} states => ?_
  -- Templates are kept under labels, and a label is the same in both runs.
  have defined : Option.Rel (fun definition otherDefinition =>
        TemplateCorresponds pairs (name, definition) (otherName, otherDefinition))
      (state.network.template? name) (otherState.network.template? otherName) := by
    refine Table.rel_lookup states.corresponds.network.templates fun template => ?_
    rw [← template.key]
    exact equalAlike_text states.pairing names (.refl_of_plain template.isLabel.noUnderscore)
  generalize state.network.template? name = definition at defined ⊢
  generalize otherState.network.template? otherName = otherDefinition at defined ⊢
  cases defined with
  | some template =>
      exact stayInStep_pure (.some ⟨template.definition, template.isLabel, template.key⟩)
  | none =>
      have found := rel_registered states.pairing states.corresponds.registry names
      dsimp only
      generalize state.registry.lookup name = registered at found ⊢
      generalize otherState.registry.lookup otherName = otherRegistered at found ⊢
      cases found with
      | none => exact stayInStep_pure .none
      | some entry =>
          obtain ⟨keys, instructions, declares⟩ := entry
          cases instructions with
          | @templateDef declared parameters body otherBody isLabel plain bodies =>
              obtain rfl : name = declared := declares _ _ _ rfl
              obtain rfl : name = otherName := ((equalAlike_text states.pairing names
                (.refl_of_plain isLabel.noUnderscore)).1 rfl).symm
              have definitions : (Instruction.templateDef name parameters body).Corresponds pairs
                  (.templateDef name parameters otherBody) := .templateDef isLabel plain bodies
              refine stayInStep_bind_eq (stayInStep_set
                { states with
                  corresponds :=
                    { states.corresponds with
                      network :=
                        states.corresponds.network.registerTemplate isLabel definitions } })
                fun _ => stayInStep_pure (.some ⟨definitions, isLabel, rfl⟩)
          | _ => exact stayInStep_pure .none

theorem stayInStep_startExpand {group otherGroup : Option String}
    {annotations otherAnnotations : TextTable}
    (groups : Option.Rel (RespelledText pairs) group otherGroup)
    (entries : List.Forall₂ (EntryCorresponds pairs) annotations otherAnnotations)
    (size otherSize : Nat) :
    StayInStep pairs (· = ·) (startExpand group annotations size)
      (startExpand otherGroup otherAnnotations otherSize) := by
  have annotated : StayInStep pairs (· = ·) (Compile.annotate group annotations)
      (Compile.annotate otherGroup otherAnnotations) := by
    refine stayInStep_modify (fun _ => rfl) (fun _ => rfl) fun {state otherState} states =>
      { states.corresponds with network := ?_ }
    have all {one other : Network} (networks : one.Corresponds pairs other) :
        (annotations.foldl (fun network entry => network.annotate entry.1 entry.2)
          one).Corresponds pairs
        (otherAnnotations.foldl (fun network entry => network.annotate entry.1 entry.2) other) := by
      induction entries generalizing one other with
      | nil => exact networks
      | cons _ _ inductionHypothesis => exact inductionHypothesis (networks.annotate _ _)
    cases groups with
    | none => exact all states.corresponds.network
    | some _ => exact all (states.corresponds.network.annotate ("group", _) ("group", _))
  exact stayInStep_bind_eq annotated fun _ => stayInStep_log _ _

/-! ## Branches -/

structure BranchPlan.Corresponds (pairs : List (String × String)) (one other : BranchPlan) :
    Prop where
  layerName : LayerName pairs one.layerName other.layerName
  ident : RespelledText pairs one.condition.ident other.condition.ident
  first : Instruction.AllCorrespond pairs one.first other.first
  second : Instruction.AllCorrespond pairs one.second other.second

theorem BranchPlan.Corresponds.mono {more : List (String × String)} (grows : pairs ⊆ more)
    {one other : BranchPlan} (plans : one.Corresponds pairs other) : one.Corresponds more other :=
  { layerName := plans.layerName.mono grows
    ident := plans.ident.mono grows
    first := plans.first.mono grows
    second := plans.second.mono grows }

structure OpenBranch.Corresponds (pairs : List (String × String)) (one other : OpenBranch) :
    Prop where
  substitution : one.substitution.Corresponds pairs other.substitution
  scope : one.scope = other.scope
  outer : one.outer = other.outer

private theorem append_correspond {first second one other : List Instruction}
    (front : Instruction.AllCorrespond pairs first second)
    (back : Instruction.AllCorrespond pairs one other) :
    Instruction.AllCorrespond pairs (first ++ one) (second ++ other) := by
  induction first generalizing second with
  | nil =>
      cases front with
      | nil => exact back
  | cons _ _ inductionHypothesis =>
      cases front with
      | cons head rest => exact .cons head (inductionHypothesis rest)

private theorem splitBody_correspond
    {body otherBody alternative otherAlternative : List Instruction}
    (bodies : Instruction.AllCorrespond pairs body otherBody)
    (alternatives : Instruction.AllCorrespond pairs alternative otherAlternative) :
    Instruction.AllCorrespond pairs (splitBody body alternative).1
        (splitBody otherBody otherAlternative).1 ∧
      Instruction.AllCorrespond pairs (splitBody body alternative).2
        (splitBody otherBody otherAlternative).2 := by
  suffices both : Instruction.AllCorrespond pairs (splitBody body []).1 (splitBody otherBody []).1 ∧
      Instruction.AllCorrespond pairs (splitBody body []).2 (splitBody otherBody []).2 from
    ⟨both.1, append_correspond alternatives both.2⟩
  induction body generalizing otherBody with
  | nil =>
      cases bodies with
      | nil => exact ⟨.nil, .nil⟩
  | cons first rest inductionHypothesis =>
      cases bodies with
      | cons head others =>
          obtain ⟨unmarked, marked⟩ := inductionHypothesis others
          cases head with
          | otherwise inside =>
              exact ⟨unmarked, append_correspond .nil (append_correspond inside marked)⟩
          | _ => exact ⟨.cons (by constructor <;> assumption) unmarked, marked⟩

/-- Both runs read a branch, or fail alike. -/
theorem stayInStep_planBranch {name otherName : Option String} {test otherTest : Instruction}
    {body otherBody alternative otherAlternative : List Instruction}
    (names : Option.Rel (RespelledName pairs) name otherName)
    (tests : test.Corresponds pairs otherTest)
    (bodies : Instruction.AllCorrespond pairs body otherBody)
    (alternatives : Instruction.AllCorrespond pairs alternative otherAlternative) :
    StayInStep pairs (BranchPlan.Corresponds pairs) (planBranch name test body alternative)
      (planBranch otherName otherTest otherBody otherAlternative) := by
  have conditions : BothMake (fun read otherRead =>
        RespelledText pairs read.2.ident otherRead.2.ident)
      (conditionOf test) (conditionOf otherTest) := by
    cases tests with
    | condition text =>
        have parsed := Respelled.parseChars text
        unfold conditionOf
        dsimp only
        generalize Condition.parseChars _ = outcome at parsed ⊢
        generalize Condition.parseChars _ = otherOutcome at parsed ⊢
        cases parsed with
        | error => exact .error rfl
        | ok idents => exact .ok idents
    | _ => exact .error rfl
  refine stayInStep_get_bind fun {state otherState} states => ?_
  have layerNames : LayerName pairs (name.getD s!"if_{state.branchCount + 1}")
      (otherName.getD s!"if_{otherState.branchCount + 1}") := by
    cases names with
    | none =>
        rw [states.corresponds.branchCount]
        exact .numbered _
    | some name => exact .respelled name
  refine stayInStep_bind_eq (stayInStep_modify (fun _ => rfl) (fun _ => rfl) fun states' =>
    { states'.corresponds with
      branchCount := congrArg (· + 1) states.corresponds.branchCount }) fun _ => ?_
  generalize conditionOf test = condition at conditions ⊢
  generalize conditionOf otherTest = otherCondition at conditions ⊢
  cases conditions with
  | error faults => exact stayInStep_throw faults
  | ok idents =>
      obtain ⟨firsts, seconds⟩ := splitBody_correspond bodies alternatives
      exact stayInStep_bind_eq (stayInStep_log _ _) fun _ =>
        stayInStep_pure ⟨layerNames, idents, firsts, seconds⟩

theorem stayInStep_leaveBranch {opened otherOpened : OpenBranch}
    (branches : opened.Corresponds pairs otherOpened) :
    StayInStep pairs (· = ·) (leaveBranch opened) (leaveBranch otherOpened) := by
  refine stayInStep_bind_eq (stayInStep_modify (fun _ => rfl) (fun _ => rfl) fun states =>
    { states.corresponds with current := branches.outer }) fun _ => ?_
  refine stayInStep_get_bind fun states => stayInStep_pure ?_
  rw [branches.scope]
  exact states.corresponds.firstOutput_eq _

private theorem stayInStep_wireCondition {ident otherIdent : String}
    (idents : RespelledText pairs ident otherIdent) (id : LayerId) :
    StayInStep pairs (· = ·) (wireCondition ident id) (wireCondition otherIdent id) := by
  refine stayInStep_get_bind fun {state otherState} states => ?_
  rw [resolveHere_eq states idents]
  split
  · exact stayInStep_pure rfl
  rename_i source _
  rw [states.corresponds.network.any_eq LayerKind.isInput (fun same => same.isInput) source]
  split
  · have connects := states.corresponds.network.connect source id
    generalize state.network.connect source id = outcome at connects ⊢
    generalize otherState.network.connect source id = otherOutcome at connects ⊢
    cases connects with
    | error => exact stayInStep_pure rfl
    | ok networks =>
        exact stayInStep_set
          { states with corresponds := { states.corresponds with network := networks } }
  · exact stayInStep_pure rfl

theorem stayInStep_finishBranch {plan otherPlan : BranchPlan}
    (plans : plan.Corresponds pairs otherPlan) (thenRoot elseRoot : Option LayerId) :
    StayInStep pairs (· = ·) (finishBranch plan thenRoot elseRoot)
      (finishBranch otherPlan thenRoot elseRoot) := by
  refine stayInStep_bind_eq (stayInStep_addLayer plans.layerName (.conditional _ _ _ _))
    fun id => ?_
  exact stayInStep_bind_eq (stayInStep_wireCondition plans.ident id) fun _ => stayInStep_log _ _

/-! ## Modules -/

theorem stayInStep_layerCount : StayInStep pairs (· = ·) layerCount layerCount :=
  stayInStep_get_bind fun states => stayInStep_pure states.corresponds.network.size_eq

/-- Both runs gather the same children. -/
theorem stayInStep_gather (start before : Nat) (gathered : List LayerId)
    {child otherChild : Instruction} (children : child.Corresponds pairs otherChild) :
    StayInStep pairs (· = ·) (gather start before gathered child)
      (gather start before gathered otherChild) := by
  refine stayInStep_get_bind fun {state otherState} states => stayInStep_pure ?_
  have sameEarlier : earlierLayer state start child = earlierLayer otherState start otherChild := by
    cases children with
    | layer specs =>
        unfold earlierLayer
        dsimp only [Option.bind_some]
        rw [resolveHere_eq states specs.name.respelled]
    | moduleDef names =>
        unfold earlierLayer
        dsimp only [Option.bind_some]
        rw [resolveHere_eq states names.respelled]
    | _ => rfl
  unfold producedBy
  rw [states.corresponds.network.size_eq, sameEarlier]

theorem stayInStep_finishModule {name otherName : String}
    (names : RespelledName pairs name otherName) (gathered : List LayerId) :
    StayInStep pairs (· = ·) (finishModule name gathered) (finishModule otherName gathered) :=
  stayInStep_bind_eq (stayInStep_addLayer (.respelled names) (.same _)) fun _ => stayInStep_log _ _

end NetBlueprint.Compile
