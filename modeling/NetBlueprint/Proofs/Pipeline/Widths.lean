import NetBlueprint.Proofs.Analysis.Declaring
import NetBlueprint.Proofs.Compiler.Measuring
import NetBlueprint.Proofs.Pipeline.Evaluating

/-!
Contract: values are as wide as the model declares.

Validation and evaluation derive the width of a layer independently of one another: the one from the
shapes that layers declare, the other from units, weights, sizes and shapes while it computes. Where
a compiled network passed validation of its shapes, both agree.

Owns: the widths of the values of dense layers and of declared outputs.

Does not own: which numbers the values hold.
-/

namespace NetBlueprint

namespace Compile

open Evaluation

variable {name : String} {seed : UInt64} {program : Instruction} {compiled : Compiled}
  {options : ShapeOptions} {network : Network} {feed : Feed} {state : EvalState} {id : LayerId}
  {layer : Layer} {values : Vector32} {declared : Shape}

/-- A declared output yields as many numbers as its shape counts elements, where it counts any. -/
theorem elements_of_output (held : program.IsHeld)
    (compiles : compile name seed program = .ok compiled)
    (becomes : compiled.network.Becomes network) (reached : Reached feed network state)
    (found : compiled.network.layer? id = some layer) (isOutput : layer.kind.isOutput = true)
    (declares : layer.kind.declaredShape = some declared) {count : Int}
    (counts : declared.elements? = some count) (produces : Produces feed state id values) :
    (values.length : Int) = count := by
  obtain ⟨root, rootOf⟩ := exists_rootOf compiles
  have numbered : compiled.network.Numbered := (evaluable_of_compile compiles).1.numbered
  cases kind : layer.kind with
  | output size shape function =>
      obtain ⟨width, isWide⟩ := becomes.length_of_output numbered rootOf.isFitted reached found kind
        produces
      have fits : ∀ length ∈ size, (length : Int) ≤ Text.maxSigned := by
        intro length isSize
        cases isSize
        exact rootOf.size_le held found kind
      rw [kind] at declares
      rw [isWide]
      exact outputWidth_eq fits declares counts width
  | _ =>
      rw [kind] at isOutput
      cases isOutput

/-- Values are as wide as the model declares. A dense layer that is evaluated, for itself or inside a
module, yields one number for each unit. An output with a declared size or shape yields as many
numbers as the shape in the report has elements; and if validation made a pass, every report of an
analysis that makes a pass has such a shape for it. This holds whatever evaluations came before and
whatever weights were installed. -/
theorem widths_as_declared (held : program.IsHeld)
    (compiles : compile name seed program = .ok compiled)
    (valid : compiled.network.validate options .shapes = .ok ())
    (becomes : compiled.network.Becomes network) (reached : Reached feed network state)
    (found : compiled.network.layer? id = some layer) (produces : Produces feed state id values) :
    (∀ dense, layer.kind = .dense dense → values.length = dense.units) ∧
      (layer.kind.isOutput = true → ∀ declared, layer.kind.declaredShape = some declared →
        (∀ shape, (compiled.network.analyze options).shapes.known id = some shape →
          shape.elements? = some (values.length : Int)) ∧
        (1 ≤ options.maxPasses → ∀ reporting : ShapeOptions, 1 ≤ reporting.maxPasses →
          ∃ shape, (compiled.network.analyze reporting).shapes.known id = some shape ∧
            shape.elements? = some (values.length : Int))) := by
  obtain ⟨root, rootOf⟩ := exists_rootOf compiles
  have wellFormed := (evaluable_of_compile compiles).1
  have wired := wellFormed.wired
  refine ⟨fun dense isDense => ?_, fun isOutput declared declares => ?_⟩
  · have numbered : compiled.network.Numbered := wellFormed.numbered
    exact becomes.length_of_dense numbered rootOf.isFitted reached found isDense produces
  -- What the report of the validation shows can be allocated, so its elements are counted.
  have counted {shape : Shape}
      (known : (compiled.network.analyze options).shapes.known id = some shape) :
      declared.elements? = some (values.length : Int) := by
    have isDeclared := (Network.known_output_analyze wired found isOutput declares).1 shape known
    have allocatable := Network.isAllocatable_of_noErrors wired
      (Network.supports_analyze wired options).sized (Network.shapeErrors_of_validate valid) known
    rw [isDeclared] at allocatable
    have counts := Shape.elements?_eq_some.2 ⟨allocatable, rfl⟩
    rw [counts, elements_of_output held compiles becomes reached found isOutput declares counts
      produces]
  constructor
  · intro shape known
    rw [(Network.known_output_analyze wired found isOutput declares).1 shape known]
    exact counted known
  · intro least reporting reports
    have known := (Network.known_output_analyze wired found isOutput declares).2 least
    exact ⟨declared, (Network.known_output_analyze wired found isOutput declares).2 reports,
      counted known⟩

/-- A module with a dense layer, between an input and a wider output. -/
def widening : Instruction :=
  .program [sizedLayer "input" "x" 2, .moduleDef "m" [] [] [sizedLayer "dense" "h" 3],
    sizedLayer "output" "o" 4, .connect "x" "m", .connect "m" "o"]

def wideningFeed : Feed :=
  ⟨[("x", [Activation.zero32, Activation.zero32])], .chained⟩

private theorem widening_isHeld : widening.IsHeld := by
  have fits (layerType name : String) {size : Int} (held : (IntField.literal size).IsHeld) :
      (sizedLayer layerType name size).FieldsHeld :=
    { size := fun field isSize => Option.some.inj isSize ▸ held
      shape := fun _ absent => by cases absent
      dim := fun _ absent => by cases absent
      depth := fun _ absent => by cases absent
      heads := fun _ absent => by cases absent
      params := .nil }
  have small : (IntField.literal 2).IsHeld ∧ (IntField.literal 3).IsHeld ∧
      (IntField.literal 4).IsHeld := by
    refine ⟨⟨?_, ?_⟩, ⟨?_, ?_⟩, ?_, ?_⟩ <;> decide
  intro node member
  simp only [widening, sizedLayer, Instruction.nodes, Instruction.nodesAll, List.mem_cons,
    List.append_nil, List.cons_append, List.nil_append, List.not_mem_nil, or_false] at member
  rcases member with rfl | rfl | rfl | rfl | rfl | rfl | rfl
  · trivial
  · exact fits "input" "x" small.1
  · trivial
  · exact fits "dense" "h" small.2.1
  · exact fits "output" "o" small.2.2
  · trivial
  · trivial

/-- The dense layer yields three numbers inside the module, and the output yields four. -/
theorem widening_widths :
    widening.IsHeld ∧ ∃ compiled, compile "net" 0 widening = .ok compiled ∧
      compiled.network.validate .standard .shapes = .ok () ∧
      compiled.network.Becomes compiled.network ∧
      Reached wideningFeed compiled.network (EvalState.start compiled.network) ∧
      ∃ inside values,
        Produces wideningFeed (EvalState.start compiled.network) 1 inside ∧ inside.length = 3 ∧
        Produces wideningFeed (EvalState.start compiled.network) 3 values ∧ values.length = 4 := by
  have passed : (compile "net" 0 widening).toOption.any (fun compiled =>
      decide (compiled.network.validate .standard .shapes = .ok ()) &&
        ((compiled.network.layer? 1).any fun layer =>
          layer.kind.dense?.any fun dense => dense.units == 3) &&
        ((compiled.network.layer? 3).any fun layer =>
          layer.kind.isOutput && decide (layer.kind.declaredShape = some ⟨[4]⟩)) &&
        decide ((compiled.network.analyze .standard).shapes.known 3 = some ⟨[4]⟩) &&
        ((applyWithin wideningFeed 1 1 [Activation.zero32, Activation.zero32]).run
          (EvalState.start compiled.network)).1.toOption.isSome &&
        ((valueWithin wideningFeed 4 3).run
          (EvalState.start compiled.network)).1.toOption.isSome) = true := by decide +kernel
  have exists_ok {outcome : Except GraphError Vector32} (succeeds : outcome.toOption.isSome = true) :
      ∃ value, outcome = .ok value := by
    cases outcome with
    | error fault => cases succeeds
    | ok value => exact ⟨value, rfl⟩
  obtain ⟨compiled, compiles, checks⟩ := exists_compiled passed
  simp only [Bool.and_eq_true, decide_eq_true_iff, Option.any_eq_true] at checks
  obtain ⟨⟨⟨⟨⟨valid, inner, isInner, dense, isDense, three⟩, outer, isOuter, isOutput, declares⟩,
    known⟩, applies⟩, evaluates⟩ := checks
  obtain ⟨inside, applied⟩ := exists_ok applies
  obtain ⟨values, evaluated⟩ := exists_ok evaluates
  have insideProduced : Produces wideningFeed (EvalState.start compiled.network) 1 inside :=
    ⟨1, .inr ⟨_, applied⟩⟩
  have produced : Produces wideningFeed (EvalState.start compiled.network) 3 values :=
    ⟨4, .inl evaluated⟩
  obtain ⟨asDense, _⟩ :=
    widths_as_declared widening_isHeld compiles valid .same .start isInner insideProduced
  obtain ⟨_, asOutput⟩ :=
    widths_as_declared widening_isHeld compiles valid .same .start isOuter produced
  have isKind : inner.kind = .dense dense := by
    cases kind : inner.kind with
    | dense own =>
        rw [kind] at isDense
        cases isDense
        rfl
    | _ =>
        rw [kind] at isDense
        cases isDense
  have elements : some 4 = some (values.length : Int) :=
    (asOutput isOutput _ declares).1 ⟨[4]⟩ known
  refine ⟨widening_isHeld, compiled, compiles, valid, .same, .start, inside, values, insideProduced,
    (asDense dense isKind).trans (eq_of_beq three), produced, ?_⟩
  exact Int.ofNat.inj (Option.some.inj elements).symm

end Compile

end NetBlueprint
