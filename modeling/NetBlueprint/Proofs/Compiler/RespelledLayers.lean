import NetBlueprint.Compiler.Materialize
import NetBlueprint.Proofs.Compiler.RespelledReading

/-!
Contract: layers of two runs that differ in the marks of suffixes only.

A declaration stands for a kind in both runs or in neither. What is computed is equal; the kinds
differ only in texts that are kept as they are, the condition of a conditional and the parameters of
a convolution.

Owns: kinds that differ in texts only, and what declarations stand for.

Does not own: the states that layers are added to.
-/

namespace NetBlueprint

/-- Kinds of layers that differ at most in texts that are kept as they are. -/
inductive LayerKind.SameUpToTexts : LayerKind → LayerKind → Prop where
  | same (kind : LayerKind) : SameUpToTexts kind kind
  | conv (filters : Option Nat) (shape : Option Shape) (params otherParams : TextTable) :
      SameUpToTexts (.conv filters shape params) (.conv filters shape otherParams)
  | conditional (text otherText : String) (thenRoot elseRoot : Option LayerId) :
      SameUpToTexts (.conditional text thenRoot elseRoot)
        (.conditional otherText thenRoot elseRoot)

def CompileFault.Alike (one other : CompileFault) : Prop :=
  one.kindName = other.kindName

/-- Two outcomes are faults of one kind, or results that are related. -/
abbrev BothMake {First Second : Type} (Results : First → Second → Prop) :
    Except CompileFault First → Except CompileFault Second → Prop :=
  Outcome.Matches CompileFault.Alike Results

namespace LayerSpec

variable {pairs : List (String × String)} {one other : LayerSpec}

private theorem bothMake_refused {First Second : Type} {Results : First → Second → Prop}
    {refused otherRefused : Bool} (sameRefused : refused = otherRefused)
    {fault otherFault : CompileFault} (faults : fault.Alike otherFault)
    {outcome : Except CompileFault First} {otherOutcome : Except CompileFault Second}
    (results : BothMake Results outcome otherOutcome) :
    BothMake Results
      (if refused = true then throw fault >>= fun (_ : PUnit) => outcome else outcome)
      (if otherRefused = true then throw otherFault >>= fun (_ : PUnit) => otherOutcome
        else otherOutcome) := by
  subst sameRefused
  split
  · exact .error faults
  · exact results

private theorem bothMake_integer {field otherField : IntField}
    (fields : field.Corresponds pairs otherField) :
    BothMake (· = ·) (integer field) (integer otherField) := by
  cases fields with
  | literal value => exact .ok rfl
  | @expression text otherText texts =>
      rw [integer, integer]
      have evaluated := Respelled.evaluate texts
      generalize Expr.evaluate (unbracket text) = outcome at evaluated ⊢
      generalize Expr.evaluate (unbracket otherText) = otherOutcome at evaluated ⊢
      cases evaluated with
      | error => exact .error rfl
      | ok same => exact .ok same

private theorem bothMake_count (field : String) {value otherValue : Option IntField}
    (values : Option.Rel (IntField.Corresponds pairs) value otherValue) :
    BothMake (· = ·) (one.count field value) (other.count field otherValue) := by
  cases values with
  | none => exact .ok rfl
  | some fields =>
      refine (bothMake_integer fields).bind fun number otherNumber same => ?_
      subst same
      dsimp only
      split
      · exact .error rfl
      · exact .ok rfl

private theorem bothMake_declaredShape (spec : one.Corresponds pairs other) :
    BothMake (· = ·) one.declaredShape other.declaredShape := by
  have dims {fields others : List IntField}
      (related : List.Forall₂ (IntField.Corresponds pairs) fields others) :
      BothMake (· = ·) (fields.mapM integer) (others.mapM integer) := by
    induction related with
    | nil => exact .ok rfl
    | cons first _ inductionHypothesis =>
        rw [List.mapM_cons, List.mapM_cons]
        refine (bothMake_integer first).bind fun number otherNumber same => ?_
        refine inductionHypothesis.bind fun numbers otherNumbers sameRest => ?_
        exact .ok (by rw [same, sameRest])
  have shapes := spec.shape
  unfold declaredShape
  generalize one.shape = shape at shapes ⊢
  generalize other.shape = otherShape at shapes ⊢
  cases shapes with
  | none => exact .ok rfl
  | some related =>
      exact (dims related).bind fun _ _ same =>
        .ok (congrArg (fun dims => some (Shape.mk dims)) same)

private theorem bothMake_declaredActivation (spec : one.Corresponds pairs other) :
    BothMake (· = ·) one.declaredActivation other.declaredActivation := by
  have names := spec.activation
  unfold declaredActivation
  generalize one.activation = name at names ⊢
  generalize other.activation = otherName at names ⊢
  cases names with
  | none => exact .ok rfl
  | some texts =>
      dsimp only
      rw [Respelled.ofName?_eq texts]
      split
      · exact .ok rfl
      · exact .error rfl

private theorem lookup_params (spec : one.Corresponds pairs other) (key : String) :
    Option.Rel (RespelledText pairs) (one.params.lookup key) (other.params.lookup key) := by
  have sameKey {entry otherEntry : String × String}
      (entries : EntryCorresponds pairs entry otherEntry) : key = entry.1 ↔ key = otherEntry.1 := by
    rw [entries.key]
  exact Table.rel_imp EntryCorresponds.text (Table.rel_lookup spec.params sameKey)

private theorem bothMake_declaredRate (spec : one.Corresponds pairs other) :
    BothMake (· = ·) one.declaredRate other.declaredRate := by
  have rates := lookup_params spec "rate"
  unfold declaredRate
  rw [spec.dropout]
  split
  · exact .ok rfl
  generalize one.params.lookup "rate" = text at rates ⊢
  generalize other.params.lookup "rate" = otherText at rates ⊢
  cases rates with
  | none => exact .ok rfl
  | some texts =>
      dsimp only
      rw [(Respelled.trimmed texts).readFloat?_eq]
      split
      · exact .ok rfl
      · exact .error rfl

private theorem bothMake_dropoutKind (spec : one.Corresponds pairs other) :
    BothMake LayerKind.SameUpToTexts one.dropoutKind other.dropoutKind := by
  refine (bothMake_declaredRate spec).bind fun rate otherRate same => ?_
  subst same
  refine bothMake_refused rfl ?_ ?_
  · rfl
  refine (bothMake_declaredShape spec).bind fun shape otherShape same => ?_
  subst same
  have sameTraining : (one.params.lookup "training").any (fun text => text.toLower == "true") =
      (other.params.lookup "training").any fun text => text.toLower == "true" := by
    have trainings := lookup_params spec "training"
    generalize one.params.lookup "training" = text at trainings ⊢
    generalize other.params.lookup "training" = otherText at trainings ⊢
    cases trainings with
    | none => rfl
    | some texts =>
        rw [Option.any_some, Option.any_some]
        rcases Respelled.text_cases texts with rfl | ⟨first, second⟩
        · rfl
        · rw [beq_eq_false_iff_ne.2 (first.toLower.ne (by decide)),
            beq_eq_false_iff_ne.2 (second.toLower.ne (by decide))]
  rw [sameTraining]
  exact .ok (.same _)

private theorem bothMake_inputKind (spec : one.Corresponds pairs other) :
    BothMake LayerKind.SameUpToTexts one.inputKind other.inputKind := by
  refine (bothMake_count "size" spec.size).bind fun size otherSize sameSize => ?_
  refine (bothMake_declaredShape spec).bind fun shape otherShape sameShape => ?_
  subst sameSize sameShape
  refine bothMake_refused rfl ?_ (.ok (.same _))
  rfl

private theorem bothMake_denseKind (spec : one.Corresponds pairs other) :
    BothMake LayerKind.SameUpToTexts one.denseKind other.denseKind := by
  refine (bothMake_count "size" spec.size).bind fun size otherSize sameSize => ?_
  subst sameSize
  cases size with
  | none => exact .error rfl
  | some units =>
      refine (bothMake_declaredActivation spec).bind fun _ _ same => ?_
      subst same
      exact .ok (.same _)

private theorem bothMake_reshapeKind (spec : one.Corresponds pairs other) :
    BothMake LayerKind.SameUpToTexts one.reshapeKind other.reshapeKind := by
  refine (bothMake_declaredShape spec).bind fun shape otherShape sameShape => ?_
  subst sameShape
  cases shape with
  | none => exact .error rfl
  | some shape => exact .ok (.same _)

private theorem bothMake_activationKind (spec : one.Corresponds pairs other) :
    BothMake LayerKind.SameUpToTexts one.activationKind other.activationKind := by
  have sameNone : one.activation.isNone = other.activation.isNone := by
    have names := spec.activation
    generalize one.activation = name at names ⊢
    generalize other.activation = otherName at names ⊢
    cases names <;> rfl
  refine bothMake_refused sameNone ?_ ?_
  · rfl
  refine (bothMake_declaredActivation spec).bind fun _ _ sameFunction => ?_
  refine (bothMake_declaredShape spec).bind fun _ _ sameShape => ?_
  subst sameFunction sameShape
  exact .ok (.same _)

private theorem bothMake_shorthandKind (spec : one.Corresponds pairs other) :
    BothMake LayerKind.SameUpToTexts one.shorthandKind other.shorthandKind := by
  have sameFunction : Activation.ofName? one.kind = Activation.ofName? other.kind := by
    rcases spec.kind with same | ⟨first, second⟩
    · rw [same]
    · rw [first.ofName?_eq_none, second.ofName?_eq_none]
  unfold shorthandKind
  rw [sameFunction]
  split
  · exact .error rfl
  · exact .error rfl
  · refine (bothMake_declaredShape spec).bind fun _ _ sameShape => ?_
    subst sameShape
    exact .ok (.same _)

private theorem layerKind_of_doubled (doubled : Respelled.Doubled one.kind.toList) :
    one.layerKind = one.shorthandKind := by
  unfold layerKind
  split
  case h_17 => rfl
  all_goals
    rename_i isKeyword
    exact absurd isKeyword (doubled.ne (by decide))

/-- A declaration stands for a kind in both runs or in neither. -/
theorem Corresponds.layerKind (spec : one.Corresponds pairs other) :
    BothMake LayerKind.SameUpToTexts one.layerKind other.layerKind := by
  have shape := bothMake_declaredShape spec
  rcases spec.kind with sameKind | ⟨first, second⟩
  · unfold LayerSpec.layerKind
    rw [← sameKind]
    have convKind : BothMake LayerKind.SameUpToTexts
        (one.count "size" one.size >>= fun size => one.declaredShape >>= fun shape =>
          pure (LayerKind.conv size shape one.params))
        (other.count "size" other.size >>= fun size => other.declaredShape >>= fun shape =>
          pure (LayerKind.conv size shape other.params)) := by
      refine (bothMake_count "size" spec.size).bind fun _ _ sameSize => ?_
      refine shape.bind fun _ _ sameShape => ?_
      subst sameSize sameShape
      exact .ok (.conv _ _ _ _)
    have normKind : BothMake LayerKind.SameUpToTexts
        (one.declaredShape >>= fun shape => pure (LayerKind.norm shape))
        (other.declaredShape >>= fun shape => pure (LayerKind.norm shape)) := by
      refine shape.bind fun _ _ sameShape => ?_
      subst sameShape
      exact .ok (.same _)
    split
    · exact bothMake_inputKind spec
    · refine (bothMake_count "size" spec.size).bind fun _ _ sameSize => ?_
      refine shape.bind fun _ _ sameShape => ?_
      refine (bothMake_declaredActivation spec).bind fun _ _ sameFunction => ?_
      subst sameSize sameShape sameFunction
      exact .ok (.same _)
    · exact bothMake_denseKind spec
    · exact convKind
    · exact convKind
    · exact convKind
    · exact bothMake_dropoutKind spec
    · refine (bothMake_count "heads" spec.heads).bind fun _ _ sameHeads => ?_
      refine (bothMake_count "dim" spec.dim).bind fun _ _ sameDim => ?_
      subst sameHeads sameDim
      exact .ok (.same _)
    · refine (bothMake_count "dim" spec.dim).bind fun _ _ sameDim => ?_
      refine (bothMake_count "depth" spec.depth).bind fun _ _ sameDepth => ?_
      refine (bothMake_count "heads" spec.heads).bind fun _ _ sameHeads => ?_
      subst sameDim sameDepth sameHeads
      exact .ok (.same _)
    · exact bothMake_reshapeKind spec
    · exact normKind
    · exact normKind
    · exact normKind
    · exact normKind
    · exact normKind
    · exact bothMake_activationKind spec
    · exact bothMake_shorthandKind spec
  · rw [layerKind_of_doubled first, layerKind_of_doubled second]
    exact bothMake_shorthandKind spec

end LayerSpec

end NetBlueprint
