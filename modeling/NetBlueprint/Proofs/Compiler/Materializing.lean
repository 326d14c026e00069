import NetBlueprint.Compiler.Materialize
import NetBlueprint.Proofs.Compiler.Steps
import NetBlueprint.Proofs.Outcome

/-!
Contract: what a layer declaration does to the state of a compilation.

A declaration never refers to other layers, so whatever kind it stands for may be added to any
network. A declaration adds one layer of its own name, shares an input that is there, or finds its
layer compiled already.
-/

namespace NetBlueprint

namespace LayerSpec

private def Yields (isInput isOutput : Bool) (outcome : Except CompileFault LayerKind) : Prop :=
  ∀ kind, outcome = .ok kind → kind.IsDeclared isInput isOutput

variable {isInput isOutput : Bool}

private theorem yields_bind {Field : Type} {outcome : Except CompileFault Field}
    {next : Field → Except CompileFault LayerKind}
    (declared : ∀ field, Yields isInput isOutput (next field)) :
    Yields isInput isOutput (outcome >>= next) := by
  intro kind same
  obtain ⟨field, _, last⟩ := Outcome.bind_eq_ok.1 same
  exact declared field kind last

private theorem yields_pure {kind : LayerKind} (declared : kind.IsDeclared isInput isOutput) :
    Yields isInput isOutput (pure kind) := by
  intro other same
  rw [← Outcome.pure_eq_ok.1 same]
  exact declared

private theorem yields_error (fault : CompileFault) : Yields isInput isOutput (.error fault) := by
  intro kind same
  cases same

private theorem yields_refused (refused : Bool) (fault : CompileFault)
    {outcome : Except CompileFault LayerKind} (declared : Yields isInput isOutput outcome) :
    Yields isInput isOutput
      (if refused = true then throw fault >>= fun (_ : PUnit) => outcome else outcome) := by
  split
  · exact yields_bind fun _ => declared
  · exact declared

private theorem yields_dropoutKind (spec : LayerSpec) : Yields isInput isOutput spec.dropoutKind :=
  yields_bind fun _ => yields_refused _ _ <|
    yields_bind fun _ => yields_pure trivial

private theorem yields_inputKind (spec : LayerSpec) : Yields true isOutput spec.inputKind :=
  yields_bind fun _ => yields_bind fun _ => yields_refused _ _ <| yields_pure rfl

private theorem yields_denseKind (spec : LayerSpec) : Yields isInput isOutput spec.denseKind := by
  refine yields_bind fun size => ?_
  cases size with
  | none => exact yields_error _
  | some units => exact yields_bind fun _ => yields_pure rfl

private theorem yields_reshapeKind (spec : LayerSpec) :
    Yields isInput isOutput spec.reshapeKind := by
  refine yields_bind fun shape => ?_
  cases shape with
  | none => exact yields_error _
  | some shape => exact yields_pure trivial

private theorem yields_activationKind (spec : LayerSpec) :
    Yields isInput isOutput spec.activationKind :=
  yields_refused _ _ <|
    yields_bind fun _ => yields_bind fun _ => yields_pure trivial

private theorem yields_shorthandKind (spec : LayerSpec) :
    Yields isInput isOutput spec.shorthandKind := by
  unfold shorthandKind
  split
  · exact yields_error _
  · exact yields_error _
  · exact yields_bind fun _ => yields_pure trivial

/-- What a declaration of an input stands for. -/
theorem layerKind_of_isInput {spec : LayerSpec} {kind : LayerKind}
    (isInput : spec.isInput = true) (declared : spec.layerKind = .ok kind) :
    ∃ size shape, spec.count "size" spec.size = .ok size ∧ spec.declaredShape = .ok shape ∧
      kind = .input size shape := by
  unfold layerKind at declared
  rw [eq_of_beq isInput] at declared
  obtain ⟨size, counted, rest⟩ := Outcome.bind_eq_ok.1 declared
  obtain ⟨shape, isShape, last⟩ := Outcome.bind_eq_ok.1 rest
  split at last
  · obtain ⟨_, thrown, _⟩ := Outcome.bind_eq_ok.1 last
    cases thrown
  · exact ⟨size, shape, counted, isShape, (Outcome.pure_eq_ok.1 last).symm⟩

/-- What a declaration of an output stands for. -/
theorem layerKind_of_isOutput {spec : LayerSpec} {kind : LayerKind}
    (isOutput : spec.isOutput = true) (declared : spec.layerKind = .ok kind) :
    ∃ size shape function, spec.count "size" spec.size = .ok size ∧
      spec.declaredShape = .ok shape ∧ kind = .output size shape function := by
  unfold layerKind at declared
  rw [eq_of_beq isOutput] at declared
  obtain ⟨size, counted, rest⟩ := Outcome.bind_eq_ok.1 declared
  obtain ⟨shape, isShape, rest⟩ := Outcome.bind_eq_ok.1 rest
  obtain ⟨function, _, last⟩ := Outcome.bind_eq_ok.1 rest
  exact ⟨size, shape, function, counted, isShape, (Outcome.pure_eq_ok.1 last).symm⟩

/-- Which kinds a declaration stands for. -/
theorem isDeclared_of_layerKind {spec : LayerSpec} {kind : LayerKind}
    (declared : spec.layerKind = .ok kind) : kind.IsDeclared spec.isInput spec.isOutput := by
  have yields : Yields spec.isInput spec.isOutput spec.layerKind := by
    unfold layerKind
    split
    · rename_i isInput
      rw [LayerSpec.isInput, isInput]
      exact yields_inputKind spec
    · rename_i isOutput
      rw [LayerSpec.isOutput, isOutput]
      exact yields_bind fun _ => yields_bind fun _ => yields_bind fun _ => yields_pure rfl
    · exact yields_denseKind spec
    · exact yields_bind fun _ => yields_bind fun _ => yields_pure trivial
    · exact yields_bind fun _ => yields_bind fun _ => yields_pure trivial
    · exact yields_bind fun _ => yields_bind fun _ => yields_pure trivial
    · exact yields_dropoutKind spec
    · exact yields_bind fun _ => yields_bind fun _ => yields_pure trivial
    · exact yields_bind fun _ => yields_bind fun _ => yields_bind fun _ => yields_pure trivial
    · exact yields_reshapeKind spec
    · exact yields_bind fun _ => yields_pure trivial
    · exact yields_bind fun _ => yields_pure trivial
    · exact yields_bind fun _ => yields_pure trivial
    · exact yields_bind fun _ => yields_pure trivial
    · exact yields_bind fun _ => yields_pure trivial
    · exact yields_activationKind spec
    · exact yields_shorthandKind spec
  exact yields kind declared

/-- A declaration stands for an output exactly if it declares one. -/
theorem isOutput_of_layerKind {spec : LayerSpec} {kind : LayerKind}
    (declared : spec.layerKind = .ok kind) : kind.isOutput = spec.isOutput := by
  have possible := isDeclared_of_layerKind declared
  rw [Bool.eq_iff_iff]
  constructor
  · intro isOutput
    cases kind with
    | output _ _ _ => exact possible
    | _ => cases isOutput
  · intro isOutput
    obtain ⟨_, _, _, _, _, rfl⟩ := layerKind_of_isOutput isOutput declared
    rfl

/-! ## Declarations under other names -/

private def Covers {Result : Type} (outcome other : Except CompileFault Result) : Prop :=
  ∀ result, outcome = .ok result → other = .ok result

private theorem covers_refl {Result : Type} (outcome : Except CompileFault Result) :
    Covers outcome outcome :=
  fun _ same => same

private theorem covers_error {Result : Type} (fault : CompileFault)
    (other : Except CompileFault Result) : Covers (.error fault) other := by
  intro result same
  cases same

private theorem covers_bind {First Second : Type} {outcome other : Except CompileFault First}
    {next following : First → Except CompileFault Second} (first : Covers outcome other)
    (second : ∀ value, Covers (next value) (following value)) :
    Covers (outcome >>= next) (other >>= following) := by
  intro result same
  obtain ⟨value, found, last⟩ := Outcome.bind_eq_ok.1 same
  exact Outcome.bind_eq_ok.2 ⟨value, first value found, second value result last⟩

private theorem covers_refused {Result : Type} (refused : Bool) (fault otherFault : CompileFault)
    {outcome other : Except CompileFault Result} (covers : Covers outcome other) :
    Covers (if refused = true then throw fault >>= fun (_ : PUnit) => outcome else outcome)
      (if refused = true then throw otherFault >>= fun (_ : PUnit) => other else other) := by
  split
  · exact covers_bind (covers_error _ _) fun _ => covers
  · exact covers

section Renaming

variable (spec : LayerSpec) (name : String) (inputs outputs : List String)

def renamed : LayerSpec :=
  { spec with name, inputs, outputs }

private theorem covers_count (field : String) (value : Option IntField) :
    Covers (spec.count field value) ((spec.renamed name inputs outputs).count field value) := by
  cases value with
  | none => exact covers_refl _
  | some value =>
      unfold count
      refine covers_bind (covers_refl _) fun number => ?_
      dsimp only
      split
      · exact covers_bind (covers_error _ _) fun _ => covers_refl _
      · exact covers_refl _

private theorem covers_declaredActivation :
    Covers spec.declaredActivation (spec.renamed name inputs outputs).declaredActivation := by
  unfold declaredActivation
  rw [show (spec.renamed name inputs outputs).activation = spec.activation from rfl]
  cases spec.activation with
  | none => exact covers_refl _
  | some activation =>
      dsimp only
      split
      · exact covers_refl _
      · exact covers_error _ _

private theorem covers_declaredRate :
    Covers spec.declaredRate (spec.renamed name inputs outputs).declaredRate := by
  unfold declaredRate
  rw [show (spec.renamed name inputs outputs).dropout = spec.dropout from rfl,
    show (spec.renamed name inputs outputs).params = spec.params from rfl]
  cases spec.dropout with
  | some rate => exact covers_refl _
  | none =>
      cases spec.params.lookup "rate" with
      | none => exact covers_refl _
      | some text =>
          dsimp only
          split
          · exact covers_refl _
          · exact covers_error _ _

private theorem covers_dropoutKind :
    Covers spec.dropoutKind (spec.renamed name inputs outputs).dropoutKind :=
  covers_bind (covers_declaredRate spec name inputs outputs) fun _ =>
    covers_refused _ _ _ (covers_refl _)

private theorem covers_inputKind :
    Covers spec.inputKind (spec.renamed name inputs outputs).inputKind :=
  covers_bind (covers_count spec name inputs outputs _ _) fun _ =>
    covers_bind (covers_refl _) fun _ => covers_refused _ _ _ (covers_refl _)

private theorem covers_denseKind :
    Covers spec.denseKind (spec.renamed name inputs outputs).denseKind := by
  refine covers_bind (covers_count spec name inputs outputs _ _) fun size => ?_
  cases size with
  | none => exact covers_error _ _
  | some units =>
      exact covers_bind (covers_declaredActivation spec name inputs outputs) fun _ => covers_refl _

private theorem covers_reshapeKind :
    Covers spec.reshapeKind (spec.renamed name inputs outputs).reshapeKind := by
  refine covers_bind (covers_refl _) fun shape => ?_
  cases shape with
  | none => exact covers_error _ _
  | some shape => exact covers_refl _

private theorem covers_activationKind :
    Covers spec.activationKind (spec.renamed name inputs outputs).activationKind :=
  covers_refused _ _ _ <|
    covers_bind (covers_declaredActivation spec name inputs outputs) fun _ => covers_refl _

private theorem covers_shorthandKind :
    Covers spec.shorthandKind (spec.renamed name inputs outputs).shorthandKind := by
  unfold shorthandKind
  rw [show (spec.renamed name inputs outputs).kind = spec.kind from rfl]
  split
  · exact covers_error _ _
  · exact covers_error _ _
  · exact covers_refl _

/-- The kind of a layer does not depend on its name or its references. -/
theorem layerKind_renamed {kind : LayerKind} (declared : spec.layerKind = .ok kind) :
    (spec.renamed name inputs outputs).layerKind = .ok kind := by
  have covers : Covers spec.layerKind (spec.renamed name inputs outputs).layerKind := by
    unfold layerKind
    rw [show (spec.renamed name inputs outputs).kind = spec.kind from rfl]
    split
    · exact covers_inputKind spec name inputs outputs
    · exact covers_bind (covers_count spec name inputs outputs _ _) fun _ =>
        covers_bind (covers_refl _) fun _ =>
        covers_bind (covers_declaredActivation spec name inputs outputs) fun _ => covers_refl _
    · exact covers_denseKind spec name inputs outputs
    · exact covers_bind (covers_count spec name inputs outputs _ _) fun _ => covers_refl _
    · exact covers_bind (covers_count spec name inputs outputs _ _) fun _ => covers_refl _
    · exact covers_bind (covers_count spec name inputs outputs _ _) fun _ => covers_refl _
    · exact covers_dropoutKind spec name inputs outputs
    · exact covers_bind (covers_count spec name inputs outputs _ _) fun _ =>
        covers_bind (covers_count spec name inputs outputs _ _) fun _ => covers_refl _
    · exact covers_bind (covers_count spec name inputs outputs _ _) fun _ =>
        covers_bind (covers_count spec name inputs outputs _ _) fun _ =>
        covers_bind (covers_count spec name inputs outputs _ _) fun _ => covers_refl _
    · exact covers_reshapeKind spec name inputs outputs
    · exact covers_refl _
    · exact covers_refl _
    · exact covers_refl _
    · exact covers_refl _
    · exact covers_refl _
    · exact covers_activationKind spec name inputs outputs
    · exact covers_shorthandKind spec name inputs outputs
  exact covers kind declared

end Renaming
end LayerSpec

namespace Compile

structure Declares (name : String) (before after : CompileState) : Prop where
  leads : before.LeadsTo after
  nodes : after.network.nodes = before.network.nodes ∨
    ∃ kind, after.network.nodes =
      before.network.nodes ++ [⟨before.network.size, name, kind, [], []⟩]

variable {before after : CompileState}

/-- A quiet step before a declaration declares nothing more. -/
theorem Declares.of_quiet {name : String} {between : CompileState} (quiet : before.Quiet between)
    (declares : Declares name between after) : Declares name before after where
  leads := quiet.leadsTo.trans declares.leads
  nodes := by
    have sameSize : between.network.size = before.network.size := by
      rw [Network.size, quiet.layers]
      rfl
    have nodes := declares.nodes
    rwa [quiet.nodes, sameSize] at nodes

private theorem declares_of_isQuiet {name : String} {action : CompileM Unit}
    (quiet : IsQuiet action)
    (ran : Runs action before () after) : Declares name before after :=
  ⟨(quiet _ _ _ ran).leadsTo, .inl (quiet _ _ _ ran).nodes⟩

/-- A new layer has the declared name and a kind that the declaration stands for. -/
theorem runs_newLayer {spec : LayerSpec} :
    Runs (newLayer spec) before () after ↔
      ∃ kind, spec.layerKind = .ok kind ∧
        after = (before.withLayer spec.name kind).logged
          s!"LAYER {spec.kind} '{spec.name}' -> #{before.network.size}" := by
  unfold newLayer
  constructor
  · intro ran
    split at ran
    · exact absurd ran not_runs_throw
    · rename_i kind declared
      obtain ⟨_, _, adds, logged⟩ := runs_bind.1 ran
      obtain ⟨rfl, rfl⟩ := runs_addLayer.1 adds
      exact ⟨kind, declared, runs_log.1 logged⟩
  · rintro ⟨kind, declared, rfl⟩
    rw [declared]
    exact runs_bind.2 ⟨_, _, runs_addLayer.2 ⟨rfl, rfl⟩, runs_log.2 rfl⟩

private theorem declares_of_newLayer {spec : LayerSpec}
    (ran : Runs (newLayer spec) before () after) : Declares spec.name before after := by
  obtain ⟨kind, declared, rfl⟩ := runs_newLayer.1 ran
  have quiet := (before.withLayer spec.name kind).quiet_logged
    s!"LAYER {spec.kind} '{spec.name}' -> #{before.network.size}"
  have accepted := Network.accepts_of_isLeaf (LayerSpec.isDeclared_of_layerKind declared).isLeaf
    before.network
  exact ⟨(CompileState.leadsTo_withLayer spec.name accepted).trans quiet.leadsTo,
    .inr ⟨kind, quiet.nodes.trans (before.nodes_withLayer spec.name kind)⟩⟩

/-- A layer that is neither an input nor an output is taken off the books or new. -/
theorem runs_layer {spec : LayerSpec} (noInput : spec.isInput = false)
    (noOutput : spec.isOutput = false) :
    Runs (layer spec) before () after ↔
      (∃ taken, Runs (takeAhead spec.name (.layer spec)) before true taken ∧
        after = taken.logged s!"LAYER '{spec.name}' already compiled lazily, skipping") ∨
      ∃ asked, Runs (takeAhead spec.name (.layer spec)) before false asked ∧
        Runs (newLayer spec) asked () after := by
  unfold layer
  constructor
  · intro ran
    obtain ⟨taken, between, takes, rest⟩ := runs_bind.1 ran
    cases taken with
    | true => exact .inl ⟨between, takes, runs_log.1 rest⟩
    | false =>
        have rest := runs_get_bind.1 rest
        simp only [noInput, noOutput, Bool.or_self, Bool.false_and, Bool.false_eq_true,
          if_false] at rest
        exact .inr ⟨between, takes, rest⟩
  · rintro (⟨between, takes, rfl⟩ | ⟨between, takes, adds⟩)
    · exact runs_bind.2 ⟨true, between, takes, runs_log.2 rfl⟩
    · refine runs_bind.2 ⟨false, between, takes, runs_get_bind.2 ?_⟩
      simp only [noInput, noOutput, Bool.or_self, Bool.false_and, Bool.false_eq_true, if_false]
      exact adds

/-- A name that no layer has is neither in the current scope nor a known input, so its declaration
makes a new layer. -/
theorem runs_layer_of_unnamed {spec : LayerSpec} (sound : before.Sound)
    (unnamed : ∀ id, ¬ before.network.Named spec.name id)
    (asked : Runs (takeAhead spec.name (.layer spec)) before false before) :
    Runs (layer spec) before () after ↔ Runs (newLayer spec) before () after := by
  have notHere : before.inCurrentScope? spec.name = none := by
    unfold CompileState.inCurrentScope?
    split
    · rename_i scope found
      rw [Option.bind_eq_none_iff]
      intro id entry
      exact absurd (sound.scopes found (Table.mem_of_lookup entry)) (unnamed id)
    · rfl
  have notKnown : before.globalInput? spec.name = none := by
    rw [Option.eq_none_iff_forall_ne_some]
    exact fun id found => unnamed id (sound.globalInput? found)
  unfold layer
  constructor
  · intro ran
    obtain ⟨_, _, takes, rest⟩ := runs_bind.1 ran
    cases asked.symm.trans takes
    have rest := runs_get_bind.1 rest
    simp only [notHere, Option.any_none, Bool.and_false, Bool.false_eq_true, if_false] at rest
    split at rest
    · have rest := runs_get_bind.1 rest
      rw [notKnown] at rest
      exact rest
    · exact rest
  · intro adds
    refine runs_bind.2 ⟨false, before, asked, runs_get_bind.2 ?_⟩
    simp only [notHere, Option.any_none, Bool.and_false, Bool.false_eq_true, if_false]
    split
    · refine runs_get_bind.2 ?_
      rw [notKnown]
      exact adds
    · exact adds

/-- A declaration adds at most one layer, of the declared name. -/
theorem declares_of_layer {spec : LayerSpec} (ran : Runs (layer spec) before () after) :
    Declares spec.name before after := by
  obtain ⟨taken, between, takes, rest⟩ := runs_bind.1 ran
  refine .of_quiet (isQuiet_takeAhead _ _ _ _ _ takes) ?_
  split at rest
  · exact declares_of_isQuiet (isQuiet_log _) rest
  have rest := runs_get_bind.1 rest
  split at rest
  · exact declares_of_isQuiet (isQuiet_log _) rest
  split at rest
  · have rest := runs_get_bind.1 rest
    split at rest
    · rename_i id found
      obtain ⟨_, _, shares, logged⟩ := runs_bind.1 rest
      have quiet := isQuiet_log _ _ _ _ logged
      rw [runs_modify.1 shares] at quiet
      exact ⟨(CompileState.leadsTo_registered fun sound => sound.globalInput? found).trans
        quiet.leadsTo, .inl quiet.nodes⟩
    · exact declares_of_newLayer rest
  · exact declares_of_newLayer rest

end Compile

end NetBlueprint
