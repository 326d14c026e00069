import NetBlueprint.Compiler.Run
import NetBlueprint.Proofs.Compiler.Exhausting

/-!
Contract: which faults the single steps of a compilation end with.

Two faults stand for a compilation that has no end: nested expansion beyond every depth, and a
request for a suffix that is never served. A third one tells that the template of a call was not
found. Every other fault lies in the instruction at hand. Of the single steps only a request for a
suffix comes to a fault without end, and only a call to a missing template.

Owns: the faults of every single step.
-/

namespace NetBlueprint

/-- Decides whether a fault stands for a compilation without end. -/
def CompileFault.isEndless : CompileFault → Bool
  | .endlessExpansion | .suffixesExhausted _ => true
  | _ => false

/-- Decides whether a fault lies in the instruction that is compiled. -/
def CompileFault.isLocal : CompileFault → Bool
  | .templateNotFound _ => false
  | fault => !fault.isEndless

/-- A fault of one instruction is not one of a compilation without end. -/
theorem CompileFault.isEndless_of_isLocal {fault : CompileFault} (isLocal : fault.isLocal = true) :
    fault.isEndless = false := by
  cases fault with
  | endlessExpansion | suffixesExhausted _ => cases isLocal
  | _ => rfl

namespace LayerSpec

section Blaming

variable {Result Next : Type}

private def Blames (outcome : Except CompileFault Result) : Prop :=
  ∀ fault, outcome = .error fault → fault.isLocal = true

private theorem blames_ok (result : Result) : Blames (.ok result) := by
  intro fault same
  cases same

private theorem blames_error {fault : CompileFault} (isLocal : fault.isLocal = true) :
    Blames (.error fault : Except CompileFault Result) := by
  intro other same
  cases same
  exact isLocal

private theorem blames_bind {outcome : Except CompileFault Result}
    {next : Result → Except CompileFault Next} (first : Blames outcome)
    (second : ∀ value, Blames (next value)) : Blames (outcome >>= next) := by
  intro fault same
  cases outcome with
  | error early =>
      cases same
      exact first fault rfl
  | ok value => exact second value fault same

private theorem blames_refused {refused : Bool} {fault : CompileFault}
    {outcome : Except CompileFault Result} (isLocal : fault.isLocal = true)
    (blames : Blames outcome) :
    Blames (if refused = true then throw fault >>= fun (_ : PUnit) => outcome else outcome) := by
  split
  · exact blames_bind (blames_error isLocal) fun _ => blames
  · exact blames

end Blaming

private theorem blames_integer (field : IntField) : Blames (integer field) := by
  cases field with
  | literal value => exact blames_ok value
  | expression text =>
      rw [integer]
      cases Expr.evaluate (unbracket text) with
      | ok value => exact blames_ok value
      | error error => exact blames_error rfl

private theorem blames_count (spec : LayerSpec) (field : String) (value : Option IntField) :
    Blames (spec.count field value) := by
  cases value with
  | none => exact blames_ok none
  | some value =>
      refine blames_bind (blames_integer value) fun number => ?_
      dsimp only
      split
      · exact blames_bind (blames_error rfl) fun _ => blames_ok _
      · exact blames_ok _

private theorem blames_declaredShape (spec : LayerSpec) : Blames spec.declaredShape := by
  have blames_dims : ∀ dims : List IntField, Blames (dims.mapM integer) := by
    intro dims
    induction dims with
    | nil => exact blames_ok []
    | cons first rest inductionHypothesis =>
        rw [List.mapM_cons]
        exact blames_bind (blames_integer first) fun _ =>
          blames_bind inductionHypothesis fun _ => blames_ok _
  unfold declaredShape
  split
  · exact blames_ok none
  · exact blames_bind (blames_dims _) fun _ => blames_ok _

private theorem blames_declaredActivation (spec : LayerSpec) : Blames spec.declaredActivation := by
  unfold declaredActivation
  split
  · exact blames_ok _
  split
  · exact blames_ok _
  · exact blames_error rfl

private theorem blames_declaredRate (spec : LayerSpec) : Blames spec.declaredRate := by
  unfold declaredRate
  split
  · exact blames_ok _
  split
  · exact blames_ok _
  split
  · exact blames_ok _
  · exact blames_error rfl

private theorem blames_dropoutKind (spec : LayerSpec) : Blames spec.dropoutKind :=
  blames_bind (blames_declaredRate spec) fun _ => blames_refused rfl <|
    blames_bind (blames_declaredShape spec) fun _ => blames_ok _

private theorem blames_inputKind (spec : LayerSpec) : Blames spec.inputKind :=
  blames_bind (blames_count spec _ _) fun _ =>
    blames_bind (blames_declaredShape spec) fun _ => blames_refused rfl (blames_ok _)

private theorem blames_denseKind (spec : LayerSpec) : Blames spec.denseKind := by
  refine blames_bind (blames_count spec _ _) fun size => ?_
  cases size with
  | none => exact blames_error rfl
  | some units => exact blames_bind (blames_declaredActivation spec) fun _ => blames_ok _

private theorem blames_reshapeKind (spec : LayerSpec) : Blames spec.reshapeKind := by
  refine blames_bind (blames_declaredShape spec) fun shape => ?_
  cases shape with
  | none => exact blames_error rfl
  | some shape => exact blames_ok _

private theorem blames_activationKind (spec : LayerSpec) : Blames spec.activationKind :=
  blames_refused rfl <| blames_bind (blames_declaredActivation spec) fun _ =>
    blames_bind (blames_declaredShape spec) fun _ => blames_ok _

private theorem blames_shorthandKind (spec : LayerSpec) : Blames spec.shorthandKind := by
  unfold shorthandKind
  split
  · exact blames_error rfl
  · exact blames_error rfl
  · exact blames_bind (blames_declaredShape spec) fun _ => blames_ok _

/-- A declaration that stands for no kind is at fault itself, or an expression in it is. -/
theorem isLocal_of_layerKind {spec : LayerSpec} {fault : CompileFault}
    (failed : spec.layerKind = .error fault) : fault.isLocal = true := by
  have blames : Blames spec.layerKind := by
    unfold layerKind
    split
    · exact blames_inputKind spec
    · exact blames_bind (blames_count spec _ _) fun _ =>
        blames_bind (blames_declaredShape spec) fun _ =>
        blames_bind (blames_declaredActivation spec) fun _ => blames_ok _
    · exact blames_denseKind spec
    · exact blames_bind (blames_count spec _ _) fun _ =>
        blames_bind (blames_declaredShape spec) fun _ => blames_ok _
    · exact blames_bind (blames_count spec _ _) fun _ =>
        blames_bind (blames_declaredShape spec) fun _ => blames_ok _
    · exact blames_bind (blames_count spec _ _) fun _ =>
        blames_bind (blames_declaredShape spec) fun _ => blames_ok _
    · exact blames_dropoutKind spec
    · exact blames_bind (blames_count spec _ _) fun _ =>
        blames_bind (blames_count spec _ _) fun _ => blames_ok _
    · exact blames_bind (blames_count spec _ _) fun _ =>
        blames_bind (blames_count spec _ _) fun _ =>
        blames_bind (blames_count spec _ _) fun _ => blames_ok _
    · exact blames_reshapeKind spec
    · exact blames_bind (blames_declaredShape spec) fun _ => blames_ok _
    · exact blames_bind (blames_declaredShape spec) fun _ => blames_ok _
    · exact blames_bind (blames_declaredShape spec) fun _ => blames_ok _
    · exact blames_bind (blames_declaredShape spec) fun _ => blames_ok _
    · exact blames_bind (blames_declaredShape spec) fun _ => blames_ok _
    · exact blames_activationKind spec
    · exact blames_shorthandKind spec
  exact blames fault failed

end LayerSpec

namespace Compile

section Combinators

variable {Result Next : Type}

/-- Wherever an action fails, the fault lies in the instruction. -/
def FailsLocally (action : CompileM Result) : Prop :=
  ∀ before fault after, Fails action before fault after → fault.isLocal = true

theorem Total.not_fails {action : CompileM Result} (total : Total action) {before : CompileState}
    {fault : CompileFault} {after : CompileState} : ¬ Fails action before fault after := by
  intro failed
  obtain ⟨result, finish, ran⟩ := total before
  cases failed.symm.trans ran

theorem Total.failsLocally {action : CompileM Result} (total : Total action) :
    FailsLocally action :=
  fun _ _ _ failed => absurd failed total.not_fails

theorem failsLocally_throw {fault : CompileFault} (isLocal : fault.isLocal = true) :
    FailsLocally (throw fault : CompileM Result) := by
  intro before other after failed
  rw [(fails_throw.1 failed).1]
  exact isLocal

/-- Nothing follows a fault. -/
theorem failsLocally_throw_bind {fault : CompileFault} (isLocal : fault.isLocal = true)
    (next : Result → CompileM Next) : FailsLocally (throw fault >>= next) := by
  intro before other after failed
  cases failed
  exact isLocal

theorem failsLocally_bind {action : CompileM Result} {next : Result → CompileM Next}
    (first : FailsLocally action) (second : ∀ value, FailsLocally (next value)) :
    FailsLocally (action >>= next) := by
  intro before fault after failed
  rcases fails_bind.1 failed with early | ⟨middle, between, _, late⟩
  · exact first _ _ _ early
  · exact second middle _ _ _ late

theorem failsLocally_get_bind {next : CompileState → CompileM Next}
    (each : ∀ state, FailsLocally (next state)) : FailsLocally (get >>= next) := by
  intro before fault after failed
  exact each before _ _ _ failed

end Combinators

/-! ## Single steps -/

theorem total_addLayer (name : String) (kind : LayerKind) : Total (addLayer name kind) :=
  total_get_bind fun _ => total_bind (total_modify _) fun _ => total_pure _

theorem failsLocally_newLayer (spec : LayerSpec) : FailsLocally (newLayer spec) := by
  unfold newLayer
  split
  · rename_i fault failed
    exact failsLocally_throw (LayerSpec.isLocal_of_layerKind failed)
  · exact (total_bind (total_addLayer _ _) fun _ => total_log _).failsLocally

theorem total_autoInput (name : String) : Total (autoInput name) := by
  refine total_get_bind fun state => ?_
  split
  · exact total_pure _
  dsimp only
  split
  · exact total_bind (total_addLayer _ _) fun _ => total_log _
  · exact total_pure _

/-- A connection fails only for its own endpoints. -/
theorem failsLocally_startConnect (source target : String) :
    FailsLocally (startConnect source target) := by
  unfold startConnect
  dsimp only
  split
  · exact failsLocally_throw_bind rfl _
  split
  · exact failsLocally_throw_bind rfl _
  · exact (total_get_bind fun state =>
      total_bind (total_autoInput source) fun _ => total_pure _).failsLocally

/-- A loop fails only for its own bounds. -/
theorem failsLocally_loopRange (counter first last : String) (size : Nat) :
    FailsLocally (loopRange counter first last size) := by
  have failsLocally_bound (text : String) : FailsLocally (bound counter text) := by
    unfold bound
    split
    · exact (total_pure _).failsLocally
    · exact failsLocally_throw rfl
  rw [loopRange_eq]
  refine failsLocally_bind (failsLocally_bound first) fun low => ?_
  refine failsLocally_bind (failsLocally_bound last) fun high => ?_
  exact (total_bind (total_log _) fun _ => total_pure _).failsLocally

/-- A branch fails only for its own condition. -/
theorem failsLocally_planBranch (name : Option String) (test : Instruction)
    (body alternative : List Instruction) :
    FailsLocally (planBranch name test body alternative) := by
  refine failsLocally_get_bind fun state => ?_
  refine failsLocally_bind (total_modify _).failsLocally fun _ => ?_
  split
  · rename_i fault failed
    refine failsLocally_throw ?_
    unfold conditionOf at failed
    split at failed
    · split at failed <;> cases failed
      rfl
    · cases failed
      rfl
  · exact (total_bind (total_log _) fun _ => total_pure _).failsLocally

theorem total_leaveBranch (opened : OpenBranch) : Total (leaveBranch opened) :=
  total_bind (total_modify _) fun _ => total_get_bind fun _ => total_pure _

theorem total_wireCondition (ident : String) (id : LayerId) : Total (wireCondition ident id) := by
  refine total_get_bind fun state => ?_
  split
  · exact total_pure _
  split
  · split
    · exact total_set _
    · exact total_pure _
  · exact total_pure _

theorem total_finishBranch (plan : BranchPlan) (thenRoot elseRoot : Option LayerId) :
    Total (finishBranch plan thenRoot elseRoot) :=
  total_bind (total_addLayer _ _) fun _ =>
    total_bind (total_wireCondition _ _) fun _ => total_log _

theorem total_finishModule (name : String) (gathered : List LayerId) :
    Total (finishModule name gathered) :=
  total_bind (total_addLayer _ _) fun _ => total_log _

theorem total_templateDef (name : String) (parameters : List String) (body : List Instruction) :
    Total (templateDef name parameters body) :=
  total_bind (total_modify _) fun _ => total_log _

theorem total_findTemplate (name : String) : Total (findTemplate name) := by
  refine total_get_bind fun state => ?_
  split
  · exact total_pure _
  split
  · exact total_bind (total_set _) fun _ => total_pure _
  · exact total_pure _

end Compile

end NetBlueprint
