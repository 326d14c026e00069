import NetBlueprint.Graph.Evaluation
import NetBlueprint.Proofs.Analysis.Reporting

/-!
Contract: outputs that declare a shape.

What is inferred for such an output does not depend on what arrives, so after the first pass the
output has the shape that it declares. Where validation finds no error the shape can be allocated,
and its elements are as many as the numbers that the evaluation of the output is cut or filled up
to.

Owns: the shapes of outputs with a declaration, and the widths that belong to them.

Does not own: the evaluation of outputs.
-/

namespace NetBlueprint

namespace Propagation

variable {network : Network} {contract : OutputContract} {state : Propagation}
  {order : List LayerId} {id other : LayerId} {layer : Layer} {shape : Shape}

section Constant

variable (wired : network.Wired) (found : network.layer? id = some layer)
  (constant : ∀ shapes, layer.inferShape shapes = some shape)

include wired found constant

/-- A shape that does not depend on others is not lost. -/
theorem known_visit_of_constant (supports : network.Supports state.shapes)
    (known : id = other ∨ state.shapes.known id = some shape) :
    (visit network contract state other).shapes.known id = some shape := by
  by_cases here : other = id
  · subst here
    rw [known_visit wired supports found, if_pos rfl, constant]
  · rw [known_visit_of_ne wired supports here]
    exact known.resolve_left fun same => here same.symm

/-- Visits that come to a layer whose shape does not depend on others give it this shape. -/
theorem known_visits_of_constant (supports : network.Supports state.shapes)
    (known : id ∈ order ∨ state.shapes.known id = some shape) :
    (order.foldl (visit network contract) state).shapes.known id = some shape := by
  induction order generalizing state with
  | nil => exact known.resolve_left List.not_mem_nil
  | cons first rest inductionHypothesis =>
      refine inductionHypothesis (supports_visit wired supports first) ?_
      rcases known with member | known
      · rcases List.mem_cons.1 member with here | later
        · exact .inr (known_visit_of_constant wired found constant supports (.inl here))
        · exact .inl later
      · exact .inr (known_visit_of_constant wired found constant supports (.inr known))

/-- A constant shape is known behind a pass. -/
theorem known_pass_of_constant (supports : network.Supports state.shapes) :
    (pass network contract network.layerOrder state).shapes.known id = some shape :=
  known_visits_of_constant wired found constant supports.unmarked
    (.inl ((Network.mem_layerOrder wired).2 (Network.lt_size_of_layer? found)))

/-- One pass is enough for a shape that does not depend on others, and further passes keep it. -/
theorem known_run_of_constant : ∀ (budget : Nat) {state : Propagation},
    network.Supports state.shapes →
      (run network contract network.layerOrder (budget + 1) state).1.shapes.known id = some shape
  | budget, state, supports => by
      have first : (pass network contract network.layerOrder state).shapes.known id = some shape :=
        known_pass_of_constant wired found constant supports
      rw [run_succ]
      split
      · cases budget with
        | zero => exact first
        | succ budget =>
            exact known_run_of_constant budget (supports_pass wired supports contract _)
      · exact first

end Constant

end Propagation

namespace Network

open Propagation

variable {network : Network} {options : ShapeOptions} {id : LayerId} {layer : Layer}
  {declared : Shape}

/-- Validation finds no errors in the final shapes. -/
theorem shapeErrors_of_validate (valid : network.validate options .shapes = .ok ()) :
    network.shapeErrors (network.analyze options).shapes = [] := by
  obtain ⟨_, noErrors⟩ := checks_of_validate valid
  rw [errors_analyze] at noErrors
  exact (List.append_eq_nil_iff.1 noErrors).2

/-- An output that declares a shape has this shape in every report, as soon as there is a pass. -/
theorem known_output_analyze (wired : network.Wired) (found : network.layer? id = some layer)
    (isOutput : layer.kind.isOutput = true) (declares : layer.kind.declaredShape = some declared) :
    (∀ shape, (network.analyze options).shapes.known id = some shape → shape = declared) ∧
      (1 ≤ options.maxPasses → (network.analyze options).shapes.known id = some declared) := by
  have constant (shapes : ShapeTable) : layer.inferShape shapes = some declared := by
    unfold Layer.inferShape
    cases kind : layer.kind with
    | output size shape function =>
        rw [kind] at declares
        rw [declares]
        rfl
    | _ =>
        rw [kind] at isOutput
        cases isOutput
  rw [shapes_analyze, propagation]
  cases options.maxPasses with
  | zero =>
      have unknown : ShapeTable.known network.declaredShapes id = none := by
        rw [known_declaredShapes found]
        cases kind : layer.kind with
        | output => rfl
        | _ =>
            rw [kind] at isOutput
            cases isOutput
      refine ⟨fun shape known => ?_, fun least => absurd least (Nat.not_succ_le_zero 0)⟩
      rw [show (run network options.contract network.layerOrder 0 (start network)).1.shapes =
        network.declaredShapes from rfl, unknown] at known
      cases known
  | succ budget =>
      have known : (run network options.contract network.layerOrder (budget + 1)
          (start network)).1.shapes.known id = some declared :=
        Propagation.known_run_of_constant wired found constant budget (supports_start network)
      refine ⟨fun shape same => ?_, fun _ => known⟩
      exact Option.some.inj (same.symm.trans known)

end Network

/-! ## Widths -/

/-- A length that fits 64 bits is the only dimension of its shape. -/
theorem Shape.vector_eq {length : Nat} (fits : (length : Int) ≤ Text.maxSigned) :
    Shape.vector length = ⟨[(length : Int)]⟩ := by
  have modulus : ((Nat.pow 2 64 : Nat) : Int) = 18446744073709551616 := rfl
  rw [Text.maxSigned] at fits
  rw [Shape.vector, Int.bmod_eq_of_le_mul_two] <;> omega

/-- A vector has as many elements as it is long. -/
theorem Shape.eq_of_elements?_vector {length : Nat} {count : Int}
    (fits : (length : Int) ≤ Text.maxSigned)
    (counts : (Shape.vector length).elements? = some count) : (length : Int) = count := by
  obtain ⟨allocatable, isVolume⟩ := Shape.elements?_eq_some.1 counts
  rw [Shape.vector_eq fits] at allocatable isVolume
  have positive : 0 < (length : Int) := by
    refine (allocatable.sizes _ (List.mem_singleton_self _)).resolve_left fun isWildcard => ?_
    rw [Shape.wildcard] at isWildcard
    omega
  rw [← isVolume, Shape.volume_cons_of_pos positive]
  exact (Int.mul_one _).symm

/-- The elements of the shape that an output declares are as many as the numbers it is cut or filled
up to. -/
theorem outputWidth_eq {size : Option Nat} {shape : Option Shape} {function : Activation}
    {declared : Shape} {count : Int} (fits : ∀ length ∈ size, (length : Int) ≤ Text.maxSigned)
    (declares : (LayerKind.output size shape function).declaredShape = some declared)
    (counts : declared.elements? = some count) (width : Nat) :
    (Evaluation.outputWidth size shape width : Int) = count := by
  cases shape with
  | some given =>
      cases declares
      have positive : 0 < count := (Shape.elements?_eq_some.1 counts).2 ▸ Shape.volume_pos _
      rw [Evaluation.outputWidth, Option.bind_some, counts]
      exact Int.toNat_of_nonneg (Int.le_of_lt positive)
  | none =>
      cases size with
      | none => cases declares
      | some length =>
          cases declares
          exact Shape.eq_of_elements?_vector (fits length rfl) counts

end NetBlueprint
