import NetBlueprint.Proofs.Compiler.Books
import NetBlueprint.Proofs.Compiler.Faults
import NetBlueprint.Proofs.Compiler.Registering

/-!
Contract: invariants that read the books and the templates alone.

Nearly every step of a compilation leaves the books and the templates as they are and fails, if at
all, through the instruction at hand. So an invariant that reads nothing else only has to be checked
for the few steps that write to them, and a fault only for requests for suffixes and the search for
templates.

Owns: what a search for a template comes to, what the steps that write have to do for such an
invariant, and that all steps maintain it then.

Does not own: any invariant in particular.
-/

namespace NetBlueprint

namespace Compile

/-- What a search for a template comes to: a template that is defined is found, one that is only
registered becomes defined, and otherwise nothing is found. -/
inductive Finds (name : String) (before : CompileState) :
    Option Instruction → CompileState → Prop where
  | defined {definition : Instruction}
      (isDefined : before.network.template? name = some definition) :
      Finds name before (some definition) before
  | registered {definition : Instruction} (undefined : before.network.template? name = none)
      (isRegistered : before.registry.lookup name = some definition)
      (isTemplate : definition.isTemplate = true) :
      Finds name before (some definition)
        { before with network := before.network.registerTemplate name definition }
  | missing (undefined : before.network.template? name = none)
      (noTemplate : ∀ instruction, before.registry.lookup name = some instruction →
        instruction.isTemplate = false) : Finds name before none before

/-- A search for a template comes to one of these outcomes. -/
theorem finds_of_findTemplate {name : String} {found : Option Instruction}
    {before after : CompileState} (ran : Runs (findTemplate name) before found after) :
    Finds name before found after := by
  have rest := runs_get_bind.1 ran
  split at rest
  · rename_i isDefined
    obtain ⟨rfl, rfl⟩ := runs_pure.1 rest
    exact .defined isDefined
  rename_i undefined
  split at rest
  · rename_i isRegistered
    obtain ⟨_, _, replaced, last⟩ := runs_bind.1 rest
    obtain ⟨rfl, rfl⟩ := runs_pure.1 last
    rw [runs_set.1 replaced]
    exact .registered undefined isRegistered rfl
  · rename_i noTemplate
    obtain ⟨rfl, rfl⟩ := runs_pure.1 rest
    refine .missing undefined fun instruction isRegistered => ?_
    cases instruction with
    | templateDef declared parameters body =>
        exact absurd isRegistered (noTemplate declared parameters body)
    | _ => rfl

/-- No template is turned to. -/
theorem Turns.isTemplate {name : String} {instruction : Instruction} {before after : CompileState}
    (turns : Turns name instruction before after) : instruction.isTemplate = false := by
  cases instruction with
  | templateDef _ _ _ => exact absurd rfl (turns.noTemplate _ _ _)
  | _ => rfl

/-- A call whose template is not found fails and leaves the state as it is. -/
theorem fails_openTemplate {name : String} {args : List String} {state : CompileState}
    (undefined : state.network.template? name = none)
    (noTemplate : ∀ instruction, state.registry.lookup name = some instruction →
      instruction.isTemplate = false) :
    Fails (openTemplate name args) state (.templateNotFound name) state := by
  obtain ⟨_, _, searched⟩ := total_findTemplate name state
  cases finds_of_findTemplate searched with
  | defined isDefined =>
      rw [undefined] at isDefined
      cases isDefined
  | registered _ isRegistered isTemplate =>
      rw [noTemplate _ isRegistered] at isTemplate
      cases isTemplate
  | missing _ _ =>
      exact fails_bind.2 (.inr ⟨_, _, searched, fails_throw.2 ⟨rfl, rfl⟩⟩)

/-- An invariant reads the books and the templates alone, and the steps that write to them maintain
it. Faults that lie in an instruction are excused. -/
structure Bookkeeps (Invariant : CompileState → Prop)
    (Excused : CompileFault → CompileState → Prop) : Prop where
  reads : ∀ {before after : CompileState}, after.books = before.books →
    after.network.templates = before.network.templates → Invariant before → Invariant after
  excused : ∀ {fault : CompileFault} (state : CompileState), fault.isLocal = true →
    Excused fault state
  unserved : ∀ {label : String} {before : CompileState} {fault : CompileFault}
    {after : CompileState}, Fails (freshSuffix label) before fault after → Excused fault after
  takeAhead : ∀ {name : String} {instruction : Instruction} {before after : CompileState},
    Takes name instruction before after →
      after.network.templates = before.network.templates → Invariant before → Invariant after
  templateDef : ∀ {name : String} {parameters : List String} {body : List Instruction}
    {before after : CompileState}, Runs (templateDef name parameters body) before () after →
      Invariant before → Invariant after
  findTemplate : ∀ {name : String} {found : Option Instruction} {before after : CompileState},
    Finds name before found after → Invariant before →
      Invariant after ∧ ((∀ definition ∈ found, definition.isTemplate = false) →
        Excused (.templateNotFound name) after)

section Keeping

variable {Result : Type} {Invariant : CompileState → Prop}
  {Excused : CompileFault → CompileState → Prop}

/-- A step that never fails has nothing to be excused for. -/
theorem maintains_of_total {action : CompileM Result} (total : Total action)
    (kept : ∀ {before result after}, Invariant before → Runs action before result after →
      Invariant after) : Maintains Invariant Excused action where
  kept := kept
  excused _ failed := absurd failed total.not_fails

/-- An action may be judged from more states than it is run from. -/
theorem ends_from {Starts Wider : CompileState → Prop} {action : CompileM Result}
    {Promised : Result → CompileState → Prop} (wider : ∀ state, Starts state → Wider state)
    (ends : Ends Wider action Promised Excused) : Ends Starts action Promised Excused :=
  ⟨fun starts => ends.kept (wider _ starts), fun starts => ends.excused (wider _ starts)⟩

/-- Where turning to a name brings about what compiling the instruction behind it maintains, and
coming back restores the invariant, compiling ahead maintains it. -/
theorem maintains_turning {compile : Instruction → CompileM Unit} {name : String}
    (Turned : Instruction → CompileState → Prop)
    (starts : ∀ {turned before after}, Runs (startAhead name) before turned after →
      Invariant before → turned.elim (Invariant after) fun turned => Turned turned.1 after)
    (each : ∀ instruction, Maintains (Turned instruction) Excused (compile instruction))
    (finishes : ∀ {instruction saved before after}, Runs (finishAhead name saved) before () after →
      Turned instruction before → Invariant after) :
    Maintains Invariant Excused (ahead compile name) := by
  refine ends_bind (fun turned state =>
      turned.elim (Invariant state) fun turned => Turned turned.1 state)
    ⟨fun holds ran => starts ran holds,
      fun _ failed => absurd failed (total_startAhead name).not_fails⟩ fun turned => ?_
  cases turned with
  | none => exact maintains_pure ()
  | some turned =>
      exact ends_bind (fun _ => Turned turned.1) (each turned.1) fun _ =>
        ⟨fun holds ran => finishes ran holds,
          fun _ failed => absurd failed (total_modify _).not_fails⟩

def holdings (state : CompileState) : Books × List (String × Instruction) :=
  (state.books, state.network.templates)

theorem steady_holdings : Steady holdings :=
  fun books _ templates => Prod.ext books templates

variable (bookkeeps : Bookkeeps Invariant Excused)

include bookkeeps

theorem Bookkeeps.maintains {action : CompileM Result} (keeps : Keeps holdings action)
    (failsLocally : FailsLocally action) : Maintains Invariant Excused action where
  kept holds ran := by
    obtain ⟨books, templates⟩ := Prod.mk.inj (keeps _ _ _ ran)
    exact bookkeeps.reads books templates holds
  excused _ failed := bookkeeps.excused _ (failsLocally _ _ _ failed)

theorem Bookkeeps.maintains_log (line : String) : Maintains Invariant Excused (log line) :=
  bookkeeps.maintains (keeps_log steady_holdings line) (total_log line).failsLocally

theorem Bookkeeps.maintains_modify {change : CompileState → CompileState}
    (same : ∀ state, holdings (change state) = holdings state) :
    Maintains Invariant Excused (modify change) :=
  bookkeeps.maintains (keeps_modify same) (total_modify change).failsLocally

theorem Bookkeeps.maintains_filling (outcome : Except ExprError Result) :
    Maintains Invariant Excused (expression outcome) := by
  cases outcome with
  | ok value => exact maintains_pure value
  | error error => exact maintains_throw fun state _ => bookkeeps.excused state rfl

theorem Bookkeeps.maintains_freshSuffix (label : String) :
    Maintains Invariant Excused (freshSuffix label) where
  kept holds ran := by
    obtain ⟨books, templates⟩ := Prod.mk.inj (keeps_freshSuffix steady_holdings _ _ _ _ ran)
    exact bookkeeps.reads books templates holds
  excused _ failed := bookkeeps.unserved failed

theorem Bookkeeps.maintains_takeAhead (name : String) (instruction : Instruction) :
    Maintains Invariant Excused (Compile.takeAhead name instruction) := by
  refine maintains_of_total (total_takeAhead name instruction) fun holds ran => ?_
  rcases runs_takeAhead ran with ⟨_, takes⟩ | ⟨_, rfl, _⟩
  · refine bookkeeps.takeAhead takes ?_ holds
    have rest := runs_get_bind.1 ran
    split at rest
    · obtain ⟨_, _, replaced, last⟩ := runs_bind.1 rest
      rw [(runs_pure.1 last).2, runs_set.1 replaced]
    · rw [(runs_pure.1 rest).2]
  · exact holds

/-- Every single step maintains an invariant for which the books are kept. -/
theorem Bookkeeps.stepsMaintain : StepsMaintain Invariant Excused where
  log := bookkeeps.maintains_log
  expression _ state _ := bookkeeps.excused state rfl
  refused _ state _ := bookkeeps.excused state rfl
  layer spec := by
    refine maintains_bind (bookkeeps.maintains_takeAhead _ _) fun taken => ?_
    split
    · exact bookkeeps.maintains_log _
    refine maintains_get_bind fun state => ?_
    split
    · exact bookkeeps.maintains_log _
    have adds : Maintains Invariant Excused (newLayer spec) :=
      bookkeeps.maintains (keeps_newLayer steady_holdings spec) (failsLocally_newLayer spec)
    split
    · refine maintains_get_bind fun state => ?_
      split
      · exact maintains_bind (bookkeeps.maintains_modify fun _ => rfl) fun _ =>
          bookkeeps.maintains_log _
      · exact adds
    · exact adds
  startConnect source target :=
    bookkeeps.maintains (keeps_startConnect steady_holdings source target)
      (failsLocally_startConnect source target)
  finishConnect scope source target :=
    bookkeeps.maintains (keeps_finishConnect steady_holdings scope source target)
      (total_finishConnect scope source target).failsLocally
  takeAhead := bookkeeps.maintains_takeAhead
  finishModule name gathered :=
    bookkeeps.maintains (keeps_finishModule steady_holdings name gathered)
      (total_finishModule name gathered).failsLocally
  loopRange counter first last size :=
    bookkeeps.maintains (keeps_loopRange steady_holdings counter first last size)
      (failsLocally_loopRange counter first last size)
  planBranch name test body alternative :=
    bookkeeps.maintains (keeps_planBranch steady_holdings name test body alternative)
      (failsLocally_planBranch name test body alternative)
  enterBranch label body := by
    refine maintains_bind (bookkeeps.maintains_freshSuffix label) fun suffix => ?_
    refine maintains_bind (bookkeeps.maintains_filling _) fun renames => ?_
    exact maintains_get_bind fun state => maintains_bind
      (bookkeeps.maintains_modify fun _ => rfl) fun _ =>
      maintains_get_bind fun _ => maintains_pure _
  leaveBranch opened :=
    bookkeeps.maintains (keeps_leaveBranch (fun _ _ => rfl) opened)
      (total_leaveBranch opened).failsLocally
  finishBranch plan thenRoot elseRoot :=
    bookkeeps.maintains (keeps_finishBranch steady_holdings plan thenRoot elseRoot)
      (total_finishBranch plan thenRoot elseRoot).failsLocally
  templateDef name parameters body :=
    maintains_of_total (total_templateDef name parameters body) fun holds ran =>
      bookkeeps.templateDef ran holds
  openTemplate name args := by
    refine ends_bind (fun found state => Invariant state ∧
        ((∀ definition ∈ found, definition.isTemplate = false) →
          Excused (.templateNotFound name) state))
      ⟨fun holds ran => bookkeeps.findTemplate (finds_of_findTemplate ran) holds,
        fun _ failed => absurd failed (total_findTemplate name).not_fails⟩ fun found => ?_
    split
    · refine ends_from (fun _ holds => holds.1) ?_
      split
      · exact maintains_throw_bind _ fun state _ => bookkeeps.excused state rfl
      · refine maintains_bind (bookkeeps.maintains_freshSuffix name) fun suffix => ?_
        refine maintains_bind (bookkeeps.maintains_filling _) fun renames => ?_
        exact maintains_bind (bookkeeps.maintains_log _) fun _ => maintains_pure _
    · rename_i noTemplate
      refine ⟨fun _ ran => absurd ran not_runs_throw, fun holds failed => ?_⟩
      obtain ⟨rfl, rfl⟩ := fails_throw.1 failed
      refine holds.2 fun definition isFound => ?_
      cases definition with
      | templateDef declared parameters body => exact absurd isFound (noTemplate declared _ _)
      | _ => rfl
  startExpand group annotations size :=
    bookkeeps.maintains (keeps_startExpand steady_holdings group annotations size)
      (total_startExpand group annotations size).failsLocally

end Keeping

end Compile

end NetBlueprint
