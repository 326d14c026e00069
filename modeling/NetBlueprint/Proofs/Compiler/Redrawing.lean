import Mathlib.Data.Nat.Digits.Defs
import NetBlueprint.Proofs.Compiler.Exhausting
import NetBlueprint.Proofs.Compiler.SuffixReading

/-!
Contract: how often a request for a suffix draws.

A request draws until a suffix is not in use yet. The first attempts give marks of four digits, all
later ones marks of eight. So the suffixes that a run leaves behind tell whether one of its requests
needed many attempts, and no step of a run, not even one that fails, forgets a suffix.

Owns: suffixes with short marks, what a request draws, and that a drawn suffix stays.
-/

namespace NetBlueprint

namespace Suffix

def IsShort (suffix : String) : Prop :=
  (markOf suffix).length = 4

instance (suffix : String) : Decidable (IsShort suffix) :=
  inferInstanceAs (Decidable (_ = _))

private theorem length_hexText {width value : Nat} (fits : value < 16 ^ width)
    (positive : 0 < width) :
    (hexText width value).toList.length = width := by
  have digits := Nat.toDigits_length 16 value width positive fits
  rw [hexText, String.toList_ofList, List.length_append, List.length_replicate]
  omega

/-- A suffix is short exactly when it is drawn on one of the first attempts. -/
theorem isShort_suffixText_iff {label : String} {attempt : Nat} {word : UInt32} :
    IsShort (suffixText label attempt word) ↔ attempt < shortAttempts := by
  have marked {width value : Nat} (fits : value < 16 ^ width) (positive : 0 < width) :
      (markOf ("__" ++ label ++ "_" ++ hexText width value)).length = width := by
    have spelled : ("__" ++ label ++ "_" ++ hexText width value).toList =
        spelling label.toList (hexText width value).toList := by
      simp [String.toList_append, spelling]
    rw [markOf_of_spelled (isMark_hexText width value) spelled, length_hexText fits positive]
  unfold IsShort suffixText
  split
  · rename_i early
    have fits : word.toNat % 65536 < 16 ^ 4 := Nat.mod_lt _ (by decide)
    rw [marked fits (by decide)]
    exact iff_of_true rfl early
  · rename_i late
    have fits : word.toNat < 16 ^ 8 := UInt32.toNat_lt word
    rw [marked fits (by decide)]
    exact iff_of_false (by decide) late

end Suffix

namespace Compile

/-- A request that is served draws words up to the first suffix that is not in use. -/
theorem runs_drawSuffix {label suffix : String} : ∀ {budget attempt : Nat}
    {before after : CompileState}, Runs (drawSuffix label budget attempt) before suffix after →
      ∃ last count, suffix = Suffix.suffixText label last
          (Suffix.randomWord before.seed (before.drawnWords + count)) ∧
        suffix ∉ before.usedSuffixes ∧
        after = { before.afterWords (count + 1) with
          usedSuffixes := suffix :: before.usedSuffixes }
  | 0, _, _, _, ran => absurd ran not_runs_throw
  | budget + 1, attempt, before, after, ran => by
      have rest := runs_get_bind.1 ran
      obtain ⟨_, drawn, replaced, choice⟩ := runs_bind.1 rest
      obtain rfl := runs_set.1 replaced
      split at choice
      · obtain ⟨last, count, spelled, fresh, same⟩ := runs_drawSuffix choice
        refine ⟨last, count + 1, ?_, fresh, ?_⟩
        · rw [spelled]
          dsimp only
          rw [Nat.add_assoc, Nat.add_comm 1]
        · rw [same, CompileState.afterWords, CompileState.afterWords]
          simp only [Nat.add_assoc, Nat.add_comm 1]
      · rename_i unused
        obtain ⟨_, marked, marks, last⟩ := runs_bind.1 choice
        obtain ⟨rfl, rfl⟩ := runs_pure.1 last
        rw [List.contains_iff_mem] at unused
        exact ⟨attempt, 0, rfl, unused, runs_modify.1 marks⟩

/-! ## Suffixes stay -/

section Staying

variable {suffix : String}

/-- A suffix that is in use stays so, whether an action fails or not. -/
abbrev KeepsUsed {Result : Type} (suffix : String) (action : CompileM Result) : Prop :=
  Maintains (fun state => suffix ∈ state.usedSuffixes)
    (fun _ state => suffix ∈ state.usedSuffixes) action

private theorem keepsUsed_get_bind {Result : Type} {next : CompileState → CompileM Result}
    (each : ∀ state, suffix ∈ state.usedSuffixes → KeepsUsed suffix (next state)) :
    KeepsUsed suffix (get >>= next) where
  kept used ran := (each _ used).kept used ran
  excused used failed := (each _ used).excused used failed

private theorem keepsUsed_throw {Result : Type} (fault : CompileFault) :
    KeepsUsed suffix (throw fault : CompileM Result) :=
  maintains_throw fun _ used => used

theorem keepsUsed_log (line : String) : KeepsUsed suffix (log line) :=
  maintains_modify fun _ used => used

theorem keepsUsed_expression {Result : Type} (outcome : Except ExprError Result) :
    KeepsUsed suffix (expression outcome) := by
  cases outcome with
  | ok value => exact maintains_pure value
  | error error => exact keepsUsed_throw _

private theorem keepsUsed_addLayer (name : String) (kind : LayerKind) :
    KeepsUsed suffix (addLayer name kind) :=
  maintains_get_bind fun _ => maintains_bind (maintains_modify fun _ used => used) fun _ =>
    maintains_pure _

private theorem keepsUsed_takeAhead (name : String) (instruction : Instruction) :
    KeepsUsed suffix (takeAhead name instruction) := by
  refine keepsUsed_get_bind fun state used => ?_
  split
  · exact maintains_bind (maintains_set used) fun _ => maintains_pure _
  · exact maintains_pure _

private theorem keepsUsed_layer (spec : LayerSpec) : KeepsUsed suffix (layer spec) := by
  have adds : KeepsUsed suffix (newLayer spec) := by
    unfold newLayer
    split
    · exact keepsUsed_throw _
    · exact maintains_bind (keepsUsed_addLayer _ _) fun _ => keepsUsed_log _
  refine maintains_bind (keepsUsed_takeAhead _ _) fun taken => ?_
  split
  · exact keepsUsed_log _
  refine maintains_get_bind fun state => ?_
  split
  · exact keepsUsed_log _
  split
  · refine maintains_get_bind fun state => ?_
    split
    · exact maintains_bind (maintains_modify fun _ used => used) fun _ => keepsUsed_log _
    · exact adds
  · exact adds

private theorem keepsUsed_startConnect (source target : String) :
    KeepsUsed suffix (startConnect source target) := by
  have adds : KeepsUsed suffix (autoInput source) := by
    refine maintains_get_bind fun state => ?_
    split
    · exact maintains_pure _
    dsimp only
    split
    · exact maintains_bind (keepsUsed_addLayer _ _) fun _ => keepsUsed_log _
    · exact maintains_pure _
  unfold startConnect
  dsimp only
  split
  · exact maintains_throw_bind _ fun _ used => used
  split
  · exact maintains_throw_bind _ fun _ used => used
  · exact maintains_get_bind fun state => maintains_bind adds fun _ => maintains_pure _

private theorem keepsUsed_finishConnect (scope : ScopeId) (source target : String) :
    KeepsUsed suffix (finishConnect scope source target) := by
  refine maintains_get_bind fun state => ?_
  refine maintains_bind (maintains_modify fun _ used => used) fun _ => ?_
  split
  · exact keepsUsed_log _
  · exact maintains_bind (keepsUsed_log _) fun _ => maintains_modify fun _ used => used

private theorem keepsUsed_freshSuffix (label : String) : KeepsUsed suffix (freshSuffix label) where
  kept used ran := by
    obtain ⟨_, _, _, _, same⟩ := runs_drawSuffix ran
    rw [same]
    exact List.mem_cons_of_mem _ used
  excused used failed := by
    obtain ⟨_, same, _⟩ := fails_freshSuffix failed
    rw [same]
    exact used

private theorem keepsUsed_loopRange (counter first last : String) (size : Nat) :
    KeepsUsed suffix (loopRange counter first last size) := by
  have keepsUsed_bound (text : String) : KeepsUsed suffix (bound counter text) := by
    unfold bound
    split
    · exact maintains_pure _
    · exact keepsUsed_throw _
  rw [loopRange_eq]
  exact maintains_bind (keepsUsed_bound first) fun low =>
    maintains_bind (keepsUsed_bound last) fun high =>
      maintains_bind (keepsUsed_log _) fun _ => maintains_pure _

private theorem keepsUsed_planBranch (name : Option String) (test : Instruction)
    (body alternative : List Instruction) :
    KeepsUsed suffix (planBranch name test body alternative) := by
  refine maintains_get_bind fun state => ?_
  refine maintains_bind (maintains_modify fun _ used => used) fun _ => ?_
  split
  · exact keepsUsed_throw _
  · exact maintains_bind (keepsUsed_log _) fun _ => maintains_pure _

private theorem keepsUsed_finishBranch (plan : BranchPlan) (thenRoot elseRoot : Option LayerId) :
    KeepsUsed suffix (finishBranch plan thenRoot elseRoot) := by
  have wires (id : LayerId) : KeepsUsed suffix (wireCondition plan.condition.ident id) := by
    refine keepsUsed_get_bind fun state used => ?_
    split
    · exact maintains_pure _
    split
    · split
      · exact maintains_set used
      · exact maintains_pure _
    · exact maintains_pure _
  exact maintains_bind (keepsUsed_addLayer _ _) fun id => maintains_bind (wires id) fun _ =>
    keepsUsed_log _

private theorem keepsUsed_openTemplate (name : String) (args : List String) :
    KeepsUsed suffix (openTemplate name args) := by
  have finds : KeepsUsed suffix (findTemplate name) := by
    refine keepsUsed_get_bind fun state used => ?_
    split
    · exact maintains_pure _
    split
    · exact maintains_bind (maintains_set used) fun _ => maintains_pure _
    · exact maintains_pure _
  refine maintains_bind finds fun found => ?_
  split
  · split
    · exact maintains_throw_bind _ fun _ used => used
    · exact maintains_bind (keepsUsed_freshSuffix name) fun _ =>
        maintains_bind (keepsUsed_expression _) fun _ =>
        maintains_bind (keepsUsed_log _) fun _ => maintains_pure _
  · exact keepsUsed_throw _

/-- A suffix in use stays in use in every single step. -/
theorem steps_keepUsed : StepsMaintain (fun state => suffix ∈ state.usedSuffixes)
    (fun _ state => suffix ∈ state.usedSuffixes) where
  log := keepsUsed_log
  expression _ _ used := used
  refused _ _ used := used
  layer := keepsUsed_layer
  startConnect := keepsUsed_startConnect
  finishConnect := keepsUsed_finishConnect
  takeAhead := keepsUsed_takeAhead
  finishModule _ _ := maintains_bind (keepsUsed_addLayer _ _) fun _ => keepsUsed_log _
  loopRange := keepsUsed_loopRange
  planBranch := keepsUsed_planBranch
  enterBranch label _ :=
    maintains_bind (keepsUsed_freshSuffix label) fun _ =>
      maintains_bind (keepsUsed_expression _) fun _ => maintains_get_bind fun _ =>
        maintains_bind (maintains_modify fun _ used => used) fun _ =>
          maintains_get_bind fun _ => maintains_pure _
  leaveBranch _ := maintains_bind (maintains_modify fun _ used => used) fun _ =>
    maintains_get_bind fun _ => maintains_pure _
  finishBranch := keepsUsed_finishBranch
  templateDef _ _ _ := maintains_bind (maintains_modify fun _ used => used) fun _ =>
    keepsUsed_log _
  openTemplate := keepsUsed_openTemplate
  startExpand _ _ _ := maintains_bind (maintains_modify fun _ used => used) fun _ =>
    keepsUsed_log _

/-- Compiling ahead keeps what the compiler of the instruction keeps. -/
theorem keepsUsed_ahead {compile : Instruction → CompileM Unit}
    (each : ∀ instruction, KeepsUsed suffix (compile instruction)) (name : String) :
    KeepsUsed suffix (ahead compile name) := by
  have starts : KeepsUsed suffix (startAhead name) := by
    refine maintains_get_bind fun state => ?_
    split
    · exact maintains_pure _
    split
    · exact maintains_pure _
    · exact maintains_pure _
    · exact maintains_bind (maintains_modify fun _ used => used) fun _ =>
        maintains_bind (keepsUsed_log _) fun _ =>
        maintains_bind (maintains_modify fun _ used => used) fun _ => maintains_pure _
  refine maintains_bind starts fun turned => ?_
  split
  · exact maintains_pure _
  · exact maintains_bind (each _) fun _ => maintains_modify fun _ used => used

/-- A suffix in use stays in use in a whole compilation. -/
theorem keepsUsed_within (depth : Nat) (instruction : Instruction) :
    KeepsUsed suffix (within depth instruction) := by
  induction depth generalizing instruction with
  | zero => exact keepsUsed_throw _
  | succ depth inductionHypothesis =>
      exact maintains_step steps_keepUsed (keepsUsed_ahead inductionHypothesis) fun inner _ =>
        inductionHypothesis inner

end Staying

/-! ## Runs without many redraws -/

/-- Every request for a suffix was served on one of the first attempts, as far as an outcome
shows. -/
structure FewRedraws {Result : Type} (outcome : Except CompileFault Result × CompileState) :
    Prop where
  served : ∀ label, outcome.1 ≠ .error (.suffixesExhausted label)
  short : ∀ suffix ∈ outcome.2.usedSuffixes, Suffix.IsShort suffix

private theorem served_iff {Result : Type} (outcome : Except CompileFault Result) :
    (∀ label, outcome ≠ .error (.suffixesExhausted label)) ↔
      (match outcome with
        | .error (.suffixesExhausted _) => false
        | _ => true) = true := by
  split
  · rename_i label
    exact iff_of_false (fun served => served label rfl) nofun
  · rename_i apart
    exact iff_of_true apart rfl

instance {Result : Type} (outcome : Except CompileFault Result × CompileState) :
    Decidable (FewRedraws outcome) :=
  have : Decidable (∀ label, outcome.1 ≠ .error (.suffixesExhausted label)) :=
    decidable_of_iff _ (served_iff outcome.1).symm
  decidable_of_iff
    ((∀ label, outcome.1 ≠ .error (.suffixesExhausted label)) ∧
      ∀ suffix ∈ outcome.2.usedSuffixes, Suffix.IsShort suffix)
    ⟨fun ⟨served, short⟩ => ⟨served, short⟩, fun few => ⟨few.served, few.short⟩⟩

/-- What follows an action forgets no suffix. -/
theorem FewRedraws.of_bind {Result Next : Type} {action : CompileM Result}
    {next : Result → CompileM Next} {before : CompileState}
    (few : FewRedraws ((action >>= next).run before))
    (stays : ∀ value suffix, KeepsUsed suffix (next value)) : FewRedraws (action.run before) := by
  rw [Outcome.run_bind] at few
  generalize action.run before = outcome at few ⊢
  obtain ⟨fault | value, between⟩ := outcome
  · exact ⟨fun label same => few.served label (by cases same; rfl), few.short⟩
  · refine ⟨nofun, fun suffix used => few.short suffix ?_⟩
    dsimp only at used ⊢
    rcases outcome : (next value).run between with ⟨fault | result, after⟩
    · exact (stays value suffix).excused used outcome
    · exact (stays value suffix).kept used outcome

end Compile

end NetBlueprint
