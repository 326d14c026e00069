import NetBlueprint.Proofs.Compiler.Instances
import NetBlueprint.Proofs.Compiler.Materializing
import NetBlueprint.Proofs.Substitution.Scanning
import NetBlueprint.Proofs.Substitution.Suffixing

/-!
Contract: trees that differ in a suffix on the names they define.

The layers of a suffixed tree have the suffix on their names, and so have those references that are
spelled like the name of a layer. Integers for the counters of loops may be filled into both trees,
which then still differ in the suffix alone.

Owns: suffixed trees.
-/

namespace NetBlueprint

/-- A suffix for the names of some layers, the counters of the loops around them, and whether every
connection has to have the suffix at both ends. -/
structure Suffixing where
  tail : Name.Tail
  counters : List String
  areCounters : ∀ counter ∈ counters, Name.IsCounter counter
  strict : Bool

namespace Suffixing

variable (suffixing : Suffixing)

structure Bears (plain suffixed : String) : Prop where
  clean : Name.IsClean plain.toList
  apart : Name.EndsApart suffixing.counters plain
  same : suffixed = plain ++ suffixing.tail.text

/-- An endpoint with the suffix, or left as it is where that is allowed. -/
def Connects (plain suffixed : String) : Prop :=
  suffixing.Bears plain suffixed ∨ suffixing.strict = false ∧ suffixed = plain

def Refers (plain suffixed : String) : Prop :=
  suffixing.Bears plain suffixed ∨ suffixed = plain

/-- A declaration and the same declaration with the suffix. -/
structure Declares (plain suffixed : LayerSpec) : Prop where
  isPlain : (Instruction.layer plain).isPlain = true
  name : suffixing.Bears plain.name suffixed.name
  inputs : List.Forall₂ suffixing.Refers plain.inputs suffixed.inputs
  outputs : List.Forall₂ suffixing.Refers plain.outputs suffixed.outputs
  same : suffixed = plain.renamed suffixed.name suffixed.inputs suffixed.outputs

mutual

def On : Instruction → Instruction → Prop
  | .layer plain, .layer suffixed => suffixing.Declares plain suffixed
  | .connect source target, .connect source' target' =>
    suffixing.Connects source source' ∧ suffixing.Connects target target'
  | .loop counter first last body, .loop counter' first' last' body' =>
    (counter ∈ suffixing.counters ∧ counter' = counter ∧ first' = first ∧ last' = last)
      ∧ OnAll body body'
  | _, _ => False

def OnAll : List Instruction → List Instruction → Prop
  | [], [] => True
  | plain :: plains, suffixed :: suffixeds => On plain suffixed ∧ OnAll plains suffixeds
  | _, _ => False

end

variable {suffixing : Suffixing}

/-- As many instructions have the suffix as are without it. -/
theorem OnAll.length_eq : ∀ {body suffixed : List Instruction},
    suffixing.OnAll body suffixed → suffixed.length = body.length
  | [], [], _ => rfl
  | _ :: _, _ :: _, on => congrArg (· + 1) (OnAll.length_eq on.2)
  | [], _ :: _, on => on.elim
  | _ :: _, [], on => on.elim

theorem Declares.noInput {plain suffixed : LayerSpec}
    (declares : suffixing.Declares plain suffixed) :
    plain.isInput = false ∧ plain.isOutput = false := by
  have isPlain := declares.isPlain
  rwa [Instruction.isPlain, Bool.and_eq_true, Bool.not_eq_true', Bool.not_eq_true'] at isPlain

/-! ## Filling in counters -/

section Filling

variable {substitution : Substitution}
  (counts : Substitution.Counts suffixing.counters substitution)

include counts

/-- Filling in keeps a suffix on a name. -/
theorem Bears.name {plain suffixed filled : String} (bears : suffixing.Bears plain suffixed)
    (fills : substitution.name plain = .ok filled) :
    ∃ filledSuffixed, substitution.name suffixed = .ok filledSuffixed ∧
      suffixing.Bears filled filledSuffixed := by
  rw [counts.numeric.name_eq] at fills
  obtain ⟨fillsSuffixed, apart⟩ :=
    counts.substitute_append suffixing.areCounters suffixing.tail bears.apart fills
  obtain ⟨between, first, second⟩ := Substitution.spliced_of_substitute counts.numeric fills
  refine ⟨filled ++ suffixing.tail.text, ?_, second.isClean (first.isClean bears.clean), apart, rfl⟩
  rw [counts.numeric.name_eq, bears.same, fillsSuffixed]

theorem Connects.name {plain suffixed filled : String}
    (connects : suffixing.Connects plain suffixed) (fills : substitution.name plain = .ok filled) :
    ∃ filledSuffixed, substitution.name suffixed = .ok filledSuffixed ∧
      suffixing.Connects filled filledSuffixed := by
  rcases connects with bears | ⟨lenient, rfl⟩
  · obtain ⟨filledSuffixed, fillsSuffixed, filledMarks⟩ := bears.name counts fills
    exact ⟨filledSuffixed, fillsSuffixed, .inl filledMarks⟩
  · exact ⟨filled, fills, .inr ⟨lenient, rfl⟩⟩

theorem Refers.name {plain suffixed filled : String} (refers : suffixing.Refers plain suffixed)
    (fills : substitution.name plain = .ok filled) :
    ∃ filledSuffixed, substitution.name suffixed = .ok filledSuffixed ∧
      suffixing.Refers filled filledSuffixed := by
  rcases refers with bears | rfl
  · obtain ⟨filledSuffixed, fillsSuffixed, filledMarks⟩ := bears.name counts fills
    exact ⟨filledSuffixed, fillsSuffixed, .inl filledMarks⟩
  · exact ⟨filled, fills, .inr rfl⟩

theorem Refers.names {plain suffixed : List String}
    (refers : List.Forall₂ suffixing.Refers plain suffixed) :
    ∀ {filled : List String}, substitution.names plain = .ok filled →
      ∃ filledSuffixed, substitution.names suffixed = .ok filledSuffixed ∧
        List.Forall₂ suffixing.Refers filled filledSuffixed := by
  induction refers with
  | nil =>
      intro filled fills
      cases fills
      exact ⟨[], rfl, .nil⟩
  | cons first _ inductionHypothesis =>
      intro filled fills
      obtain ⟨filledFirst, fillsFirst, rest⟩ := Outcome.bind_eq_ok.1 fills
      obtain ⟨filledRest, fillsRest, last⟩ := Outcome.bind_eq_ok.1 rest
      cases Outcome.pure_eq_ok.1 last
      obtain ⟨one, fillsOne, oneRefers⟩ := first.name counts fillsFirst
      obtain ⟨others, fillsOthers, othersRefer⟩ := inductionHypothesis fillsRest
      exact ⟨one :: others, Outcome.bind_eq_ok.2 ⟨one, fillsOne,
        Outcome.bind_eq_ok.2 ⟨others, fillsOthers, rfl⟩⟩, .cons oneRefers othersRefer⟩

end Filling

/-- Other names and references are filled in beside what a declaration has in common. -/
theorem layerSpec_renamed {substitution : Substitution} {spec filled : LayerSpec}
    (fills : substitution.layerSpec spec = .ok filled) {name filledName : String}
    {inputs outputs filledInputs filledOutputs : List String}
    (fillsName : substitution.name name = .ok filledName)
    (fillsInputs : substitution.names inputs = .ok filledInputs)
    (fillsOutputs : substitution.names outputs = .ok filledOutputs) :
    substitution.layerSpec (spec.renamed name inputs outputs) =
      .ok (filled.renamed filledName filledInputs filledOutputs) := by
  unfold Substitution.layerSpec at fills ⊢
  obtain ⟨layerType, fillsType, rest⟩ := Outcome.bind_eq_ok.1 fills
  obtain ⟨_, _, rest⟩ := Outcome.bind_eq_ok.1 rest
  obtain ⟨size, fillsSize, rest⟩ := Outcome.bind_eq_ok.1 rest
  obtain ⟨shape, fillsShape, rest⟩ := Outcome.bind_eq_ok.1 rest
  obtain ⟨activation, fillsActivation, rest⟩ := Outcome.bind_eq_ok.1 rest
  obtain ⟨dim, fillsDim, rest⟩ := Outcome.bind_eq_ok.1 rest
  obtain ⟨depth, fillsDepth, rest⟩ := Outcome.bind_eq_ok.1 rest
  obtain ⟨heads, fillsHeads, rest⟩ := Outcome.bind_eq_ok.1 rest
  obtain ⟨params, fillsParams, rest⟩ := Outcome.bind_eq_ok.1 rest
  obtain ⟨tags, fillsTags, rest⟩ := Outcome.bind_eq_ok.1 rest
  obtain ⟨_, _, rest⟩ := Outcome.bind_eq_ok.1 rest
  obtain ⟨_, _, rest⟩ := Outcome.bind_eq_ok.1 rest
  obtain ⟨weights, fillsWeights, last⟩ := Outcome.bind_eq_ok.1 rest
  cases Outcome.pure_eq_ok.1 last
  refine Outcome.bind_eq_ok.2 ⟨layerType, fillsType, ?_⟩
  refine Outcome.bind_eq_ok.2 ⟨filledName, fillsName, ?_⟩
  refine Outcome.bind_eq_ok.2 ⟨size, fillsSize, ?_⟩
  refine Outcome.bind_eq_ok.2 ⟨shape, fillsShape, ?_⟩
  refine Outcome.bind_eq_ok.2 ⟨activation, fillsActivation, ?_⟩
  refine Outcome.bind_eq_ok.2 ⟨dim, fillsDim, ?_⟩
  refine Outcome.bind_eq_ok.2 ⟨depth, fillsDepth, ?_⟩
  refine Outcome.bind_eq_ok.2 ⟨heads, fillsHeads, ?_⟩
  refine Outcome.bind_eq_ok.2 ⟨params, fillsParams, ?_⟩
  refine Outcome.bind_eq_ok.2 ⟨tags, fillsTags, ?_⟩
  refine Outcome.bind_eq_ok.2 ⟨filledInputs, fillsInputs, ?_⟩
  refine Outcome.bind_eq_ok.2 ⟨filledOutputs, fillsOutputs, ?_⟩
  exact Outcome.bind_eq_ok.2 ⟨weights, fillsWeights, rfl⟩

/-- Filling in keeps a suffix on a declaration. -/
theorem Declares.layerSpec {substitution : Substitution}
    (counts : Substitution.Counts suffixing.counters substitution)
    {plain suffixed filled : LayerSpec}
    (declares : suffixing.Declares plain suffixed)
    (fills : substitution.layerSpec plain = .ok filled) :
    ∃ filledSuffixed, substitution.layerSpec suffixed = .ok filledSuffixed ∧
      suffixing.Declares filled filledSuffixed := by
  obtain ⟨fillsInputs, fillsOutputs⟩ := Substitution.references_of_layerSpec fills
  obtain ⟨name, fillsName, bears⟩ :=
    declares.name.name counts (Substitution.name_of_layerSpec fills)
  obtain ⟨inputs, fillsSuffixedInputs, inputsRefer⟩ :=
    Refers.names counts declares.inputs fillsInputs
  obtain ⟨outputs, fillsSuffixedOutputs, outputsRefer⟩ :=
    Refers.names counts declares.outputs fillsOutputs
  have applied : substitution.apply (.layer plain) = .ok (.layer filled) :=
    Outcome.bind_eq_ok.2 ⟨filled, fills, rfl⟩
  refine ⟨filled.renamed name inputs outputs, ?_, ?_, bears, inputsRefer, outputsRefer, rfl⟩
  · rw [declares.same]
    exact layerSpec_renamed fills fillsName fillsSuffixedInputs fillsSuffixedOutputs
  · exact Instruction.isPlain_of_apply counts.numeric applied declares.isPlain

mutual

/-- Counters are filled into suffixed instructions as they are into plain ones. -/
theorem On.apply : ∀ {plain suffixed filled : Instruction} {substitution : Substitution},
    Substitution.Counts suffixing.counters substitution → suffixing.On plain suffixed →
      substitution.apply plain = .ok filled →
      ∃ filledSuffixed, substitution.apply suffixed = .ok filledSuffixed ∧
        suffixing.On filled filledSuffixed ∧ filled.nodeCount = plain.nodeCount := by
  intro plain suffixed filled substitution counts on fills
  cases plain with
  | layer plain =>
      cases suffixed with
      | layer suffixed =>
          obtain ⟨spec, fillsSpec, last⟩ := Outcome.bind_eq_ok.1 fills
          cases Outcome.pure_eq_ok.1 last
          obtain ⟨suffixedSpec, fillsSuffixed, declares⟩ := Declares.layerSpec counts on fillsSpec
          exact ⟨.layer suffixedSpec, Outcome.bind_eq_ok.2 ⟨suffixedSpec, fillsSuffixed, rfl⟩,
            declares, rfl⟩
      | _ => exact on.elim
  | connect source target =>
      cases suffixed with
      | connect suffixedSource suffixedTarget =>
          obtain ⟨filledSource, fillsSource, rest⟩ := Outcome.bind_eq_ok.1 fills
          obtain ⟨filledTarget, fillsTarget, last⟩ := Outcome.bind_eq_ok.1 rest
          cases Outcome.pure_eq_ok.1 last
          obtain ⟨source', fillsSource', sourceConnects⟩ := on.1.name counts fillsSource
          obtain ⟨target', fillsTarget', targetConnects⟩ := on.2.name counts fillsTarget
          exact ⟨.connect source' target', Outcome.bind_eq_ok.2 ⟨source', fillsSource',
            Outcome.bind_eq_ok.2 ⟨target', fillsTarget', rfl⟩⟩, ⟨sourceConnects, targetConnects⟩,
            rfl⟩
      | _ => exact on.elim
  | loop counter first last body =>
      cases suffixed with
      | loop suffixedCounter suffixedFirst suffixedLast suffixedBody =>
          obtain ⟨⟨isCounter, rfl, rfl, rfl⟩, bodies⟩ := on
          obtain ⟨low, fillsLow, rest⟩ := Outcome.bind_eq_ok.1 fills
          obtain ⟨high, fillsHigh, rest⟩ := Outcome.bind_eq_ok.1 rest
          obtain ⟨inner, fillsInner, same⟩ := Outcome.bind_eq_ok.1 rest
          cases Outcome.pure_eq_ok.1 same
          obtain ⟨inner', fillsInner', innerOn, sameCount⟩ :=
            OnAll.apply (counts.without _) bodies fillsInner
          refine ⟨.loop _ low high inner', Outcome.bind_eq_ok.2 ⟨low, fillsLow,
            Outcome.bind_eq_ok.2 ⟨high, fillsHigh,
            Outcome.bind_eq_ok.2 ⟨inner', fillsInner', rfl⟩⟩⟩,
            ⟨⟨isCounter, rfl, rfl, rfl⟩, innerOn⟩, ?_⟩
          rw [Instruction.nodeCount, Instruction.nodeCount, sameCount]
      | _ => exact on.elim
  | _ => cases suffixed <;> exact on.elim

/-- Filling in keeps a suffix on a list of instructions. -/
theorem OnAll.apply : ∀ {plain suffixed filled : List Instruction} {substitution : Substitution},
    Substitution.Counts suffixing.counters substitution → suffixing.OnAll plain suffixed →
      substitution.applyAll plain = .ok filled →
      ∃ filledSuffixed, substitution.applyAll suffixed = .ok filledSuffixed ∧
        suffixing.OnAll filled filledSuffixed ∧
        Instruction.nodeCountAll filled = Instruction.nodeCountAll plain
  | [], [], _, _, _, _, fills => by
      cases fills
      exact ⟨[], rfl, trivial, rfl⟩
  | plain :: plains, suffixed :: suffixeds, _, _, counts, on, fills => by
      obtain ⟨first, fillsFirst, rest⟩ := Outcome.bind_eq_ok.1 fills
      obtain ⟨others, fillsOthers, last⟩ := Outcome.bind_eq_ok.1 rest
      cases Outcome.pure_eq_ok.1 last
      obtain ⟨first', fillsFirst', firstOn, firstCount⟩ := On.apply counts on.1 fillsFirst
      obtain ⟨others', fillsOthers', othersOn, othersCount⟩ :=
        OnAll.apply counts on.2 fillsOthers
      refine ⟨first' :: others', Outcome.bind_eq_ok.2 ⟨first', fillsFirst',
        Outcome.bind_eq_ok.2 ⟨others', fillsOthers', rfl⟩⟩, ⟨firstOn, othersOn⟩, ?_⟩
      rw [Instruction.nodeCountAll, Instruction.nodeCountAll, firstCount, othersCount]
  | [], _ :: _, _, _, _, on, _ => on.elim
  | _ :: _, [], _, _, _, on, _ => on.elim

end

end Suffixing

end NetBlueprint
