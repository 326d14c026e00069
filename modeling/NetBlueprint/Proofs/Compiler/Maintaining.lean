import NetBlueprint.Proofs.Compiler.Steps

/-!
Contract: invariants of a compilation, and the faults it may end with.

`Ends Starts action Promised Excused` says what an action comes to from every state of a kind: it
succeeds as promised, or it fails with an excuse. An invariant that every single step maintains is
maintained by whatever compiles an instruction, as long as the instructions inside it are compiled
so.

Owns: what single actions and whole constructs come to, and the instructions that an instruction
comes to by itself.

Does not own: what is compiled ahead.
-/

namespace NetBlueprint

/-- `instruction.ComesTo inner`: compiling the first instruction may come to compiling the second,
apart from what is compiled ahead. Only a template call comes to anything. -/
inductive Instruction.ComesTo : Instruction → Instruction → Prop where
  | program {body : List Instruction} {inner : Instruction} (member : inner ∈ body) :
      ComesTo (.program body) inner
  | block {body : List Instruction} {inner : Instruction} (member : inner ∈ body) :
      ComesTo (.block body) inner
  | moduleDef {name : String} {inputs outputs : List String} {body : List Instruction}
      {inner : Instruction} (member : inner ∈ body) :
      ComesTo (.moduleDef name inputs outputs body) inner
  | loop {counter first last : String} {body : List Instruction} {child inner : Instruction}
      {substitution : Substitution} (member : child ∈ body)
      (filled : substitution.apply child = .ok inner) :
      ComesTo (.loop counter first last body) inner
  | first {name : Option String} {test : Instruction} {body alternative : List Instruction}
      {child inner : Instruction} {substitution : Substitution}
      (member : child ∈ (Compile.splitBody body alternative).1)
      (filled : substitution.apply child = .ok inner) :
      ComesTo (.branch name test body alternative) inner
  | second {name : Option String} {test : Instruction} {body alternative : List Instruction}
      {child inner : Instruction} {substitution : Substitution}
      (member : child ∈ (Compile.splitBody body alternative).2)
      (filled : substitution.apply child = .ok inner) :
      ComesTo (.branch name test body alternative) inner
  | templateCall {name : String} {args : List String} (inner : Instruction) :
      ComesTo (.templateCall name args) inner
  | call {name : String} {args : List String} (inner : Instruction) :
      ComesTo (.call name args) inner
  | expand {group : Option String} {annotations : TextTable} {body : List Instruction}
      {inner : Instruction} (member : inner ∈ body) :
      ComesTo (.expand group annotations body) inner

namespace Compile

/-- An action fails from one state and leaves another behind. -/
def Fails {Result : Type} (action : CompileM Result) (before : CompileState)
    (fault : CompileFault) (after : CompileState) : Prop :=
  action.run before = (.error fault, after)

section Failing

variable {Result Next : Type} {before after : CompileState} {fault : CompileFault}

/-- Nothing fails that only returns a value. -/
theorem not_fails_pure {value : Result} : ¬ Fails (pure value) before fault after := by
  intro failed
  cases failed

theorem fails_throw {thrown : CompileFault} :
    Fails (throw thrown : CompileM Result) before fault after ↔
      fault = thrown ∧ after = before := by
  constructor
  · intro failed
    cases failed
    exact ⟨rfl, rfl⟩
  · rintro ⟨rfl, rfl⟩
    rfl

/-- A sequence fails exactly when one of its parts does. -/
theorem fails_bind {action : CompileM Result} {next : Result → CompileM Next} :
    Fails (action >>= next) before fault after ↔
      Fails action before fault after ∨
        ∃ middle between, Runs action before middle between ∧
          Fails (next middle) between fault after := by
  unfold Fails Runs
  rw [Outcome.run_bind]
  rcases action.run before with ⟨outcome, between⟩
  cases outcome with
  | error early =>
      constructor
      · intro failed
        cases failed
        exact .inl rfl
      · rintro (failed | ⟨_, _, same, _⟩)
        · cases failed
          rfl
        · cases same
  | ok middle =>
      constructor
      · exact fun failed => .inr ⟨middle, between, rfl, failed⟩
      · rintro (same | ⟨_, _, same, failed⟩)
        · cases same
        · cases same
          exact failed

end Failing

/-- From every state of a kind an action succeeds as promised or fails with an excuse. -/
structure Ends {Result : Type} (Starts : CompileState → Prop) (action : CompileM Result)
    (Promised : Result → CompileState → Prop)
    (Excused : CompileFault → CompileState → Prop) : Prop where
  kept : ∀ {before result after}, Starts before → Runs action before result after →
    Promised result after
  excused : ∀ {before fault after}, Starts before → Fails action before fault after →
    Excused fault after

/-- An action that starts with an invariant ends with it or fails with an excuse. -/
abbrev Maintains {Result : Type} (Invariant : CompileState → Prop)
    (Excused : CompileFault → CompileState → Prop) (action : CompileM Result) : Prop :=
  Ends Invariant action (fun _ => Invariant) Excused

section Combinators

variable {Result Next : Type} {Starts Between Invariant : CompileState → Prop}
  {Excused : CompileFault → CompileState → Prop}

/-- A sequence ends as its second part does, from wherever the first one ends. -/
theorem ends_bind {action : CompileM Result} {next : Result → CompileM Next}
    (Halfway : Result → CompileState → Prop) {Promised : Next → CompileState → Prop}
    (first : Ends Starts action Halfway Excused)
    (second : ∀ value, Ends (Halfway value) (next value) Promised Excused) :
    Ends Starts (action >>= next) Promised Excused where
  kept starts ran := by
    obtain ⟨middle, between, firstRan, secondRan⟩ := runs_bind.1 ran
    exact (second middle).kept (first.kept starts firstRan) secondRan
  excused starts failed := by
    rcases fails_bind.1 failed with early | ⟨middle, between, firstRan, late⟩
    · exact first.excused starts early
    · exact (second middle).excused (first.kept starts firstRan) late

theorem maintains_pure (value : Result) : Maintains Invariant Excused (pure value) where
  kept holds ran := by
    rw [(runs_pure.1 ran).2]
    exact holds
  excused _ failed := absurd failed not_fails_pure

theorem maintains_throw {fault : CompileFault}
    (excused : ∀ state, Invariant state → Excused fault state) :
    Maintains Invariant Excused (throw fault : CompileM Result) where
  kept _ ran := absurd ran not_runs_throw
  excused holds failed := by
    obtain ⟨rfl, rfl⟩ := fails_throw.1 failed
    exact excused _ holds

/-- Nothing follows a fault. -/
theorem maintains_throw_bind {fault : CompileFault} (next : Result → CompileM Next)
    (excused : ∀ state, Invariant state → Excused fault state) :
    Maintains Invariant Excused (throw fault >>= next) :=
  ends_bind (fun _ _ => False)
    ⟨fun _ ran => absurd ran not_runs_throw, (maintains_throw excused).excused⟩
    fun _ => ⟨False.elim, False.elim⟩

theorem maintains_bind {action : CompileM Result} {next : Result → CompileM Next}
    (first : Maintains Invariant Excused action)
    (second : ∀ value, Maintains Invariant Excused (next value)) :
    Maintains Invariant Excused (action >>= next) :=
  ends_bind (fun _ => Invariant) first second

theorem maintains_get : Maintains Invariant Excused get where
  kept holds ran := by
    rw [(runs_get.1 ran).2]
    exact holds
  excused _ failed := by cases failed

/-- The state that is looked at has the invariant. -/
theorem maintains_get_bind {next : CompileState → CompileM Next}
    (each : ∀ state, Maintains Invariant Excused (next state)) :
    Maintains Invariant Excused (get >>= next) :=
  maintains_bind maintains_get each

theorem maintains_set {state : CompileState} (holds : Invariant state) :
    Maintains Invariant Excused (set state) where
  kept _ ran := by
    rw [runs_set.1 ran]
    exact holds
  excused _ failed := by cases failed

theorem maintains_modify {change : CompileState → CompileState}
    (keeps : ∀ state, Invariant state → Invariant (change state)) :
    Maintains Invariant Excused (modify change) where
  kept holds ran := by
    rw [runs_modify.1 ran]
    exact keeps _ holds
  excused _ failed := by cases failed

end Combinators

/-! ## Whole constructs -/

/-- Every single step maintains an invariant or fails with an excuse. -/
structure StepsMaintain (Invariant : CompileState → Prop)
    (Excused : CompileFault → CompileState → Prop) : Prop where
  log : ∀ line, Maintains Invariant Excused (log line)
  expression : ∀ error state, Invariant state → Excused (.expression error) state
  refused : ∀ opcode state, Invariant state → Excused (.unsupportedOp opcode) state
  layer : ∀ spec, Maintains Invariant Excused (layer spec)
  startConnect : ∀ source target, Maintains Invariant Excused (startConnect source target)
  finishConnect : ∀ scope source target,
    Maintains Invariant Excused (finishConnect scope source target)
  takeAhead : ∀ name instruction, Maintains Invariant Excused (takeAhead name instruction)
  finishModule : ∀ name gathered, Maintains Invariant Excused (finishModule name gathered)
  loopRange : ∀ counter first last size,
    Maintains Invariant Excused (loopRange counter first last size)
  planBranch : ∀ name test body alternative,
    Maintains Invariant Excused (planBranch name test body alternative)
  enterBranch : ∀ label body, Maintains Invariant Excused (enterBranch label body)
  leaveBranch : ∀ opened, Maintains Invariant Excused (leaveBranch opened)
  finishBranch : ∀ plan thenRoot elseRoot,
    Maintains Invariant Excused (finishBranch plan thenRoot elseRoot)
  templateDef : ∀ name parameters body,
    Maintains Invariant Excused (templateDef name parameters body)
  openTemplate : ∀ name args, Maintains Invariant Excused (openTemplate name args)
  startExpand : ∀ group annotations size,
    Maintains Invariant Excused (startExpand group annotations size)

section Constructs

variable {Invariant : CompileState → Prop} {Excused : CompileFault → CompileState → Prop}
  {compile : Instruction → CompileM Unit}

/-- A list of instructions maintains what each of them does. -/
theorem maintains_all : ∀ {body : List Instruction},
    (∀ inner ∈ body, Maintains Invariant Excused (compile inner)) →
      Maintains Invariant Excused (all compile body)
  | [], _ => maintains_pure ()
  | _ :: _, each => by
      obtain ⟨head, tail⟩ := List.forall_mem_cons.1 each
      exact maintains_bind head fun _ => maintains_all tail

theorem maintains_children {start : Nat} : ∀ {body : List Instruction} {gathered : List LayerId},
    (∀ inner ∈ body, Maintains Invariant Excused (compile inner)) →
      Maintains Invariant Excused (children compile start gathered body)
  | [], gathered, _ => maintains_pure gathered
  | child :: rest, gathered, each => by
      obtain ⟨head, tail⟩ := List.forall_mem_cons.1 each
      have gathers (before : Nat) :
          Maintains Invariant Excused (gather start before gathered child) :=
        maintains_get_bind fun _ => maintains_pure _
      exact maintains_get_bind fun state => maintains_bind head fun _ =>
        maintains_bind (gathers state.network.size) fun _ => maintains_children tail

/-- An endpoint that is compiled ahead maintains what compiling a name does. -/
theorem maintains_ensure (ahead : ∀ name, Maintains Invariant Excused (ahead compile name))
    (scope : ScopeId) (endpoint : String) :
    Maintains Invariant Excused (ensure compile scope endpoint) := by
  refine maintains_get_bind fun state => ?_
  split
  · exact ahead endpoint
  · exact maintains_pure ()

variable (steps : StepsMaintain Invariant Excused)

include steps

private theorem maintains_expression {Result : Type} (outcome : Except ExprError Result) :
    Maintains Invariant Excused (expression outcome) := by
  cases outcome with
  | ok value => exact maintains_pure value
  | error error => exact maintains_throw (steps.expression error)

theorem maintains_filled {substitution : Substitution} : ∀ {body : List Instruction},
    (∀ child ∈ body, ∀ inner, substitution.apply child = .ok inner →
      Maintains Invariant Excused (compile inner)) →
      Maintains Invariant Excused (filled compile substitution body)
  | [], _ => maintains_pure ()
  | first :: rest, each => by
      obtain ⟨head, tail⟩ := List.forall_mem_cons.1 each
      refine ends_bind (fun inner state =>
        substitution.apply first = .ok inner ∧ Invariant state) ⟨?_, ?_⟩ fun inner => ?_
      · intro before inner after holds ran
        obtain ⟨applied, rfl⟩ := runs_expression.1 ran
        exact ⟨applied, holds⟩
      · exact (maintains_expression steps _).excused
      · have both := fun applied => maintains_bind (head inner applied) fun _ =>
          maintains_filled tail
        exact ⟨fun holds => (both holds.1).kept holds.2,
          fun holds => (both holds.1).excused holds.2⟩

/-- The rounds of a loop maintain what each instruction does once it is filled in. -/
theorem maintains_rounds {counter : String} {body : List Instruction}
    (each : ∀ child ∈ body, ∀ (substitution : Substitution) inner,
      substitution.apply child = .ok inner → Maintains Invariant Excused (compile inner)) :
    ∀ count value, Maintains Invariant Excused (rounds compile counter body count value)
  | 0, _ => maintains_pure ()
  | count + 1, value =>
      maintains_bind (maintains_filled steps fun child member => each child member _) fun _ =>
        maintains_rounds each count (value + 1)

theorem maintains_branchRoot {label : String} {body : List Instruction}
    (each : ∀ child ∈ body, ∀ (substitution : Substitution) inner,
      substitution.apply child = .ok inner → Maintains Invariant Excused (compile inner)) :
    Maintains Invariant Excused (branchRoot compile label body) := by
  unfold branchRoot
  split
  · exact maintains_pure none
  · exact maintains_bind (steps.enterBranch label body) fun opened =>
      maintains_bind (maintains_filled steps fun child member => each child member _) fun _ =>
        steps.leaveBranch opened

/-- An instruction maintains an invariant if the single steps, the instructions it comes to and
what it compiles ahead do. -/
theorem maintains_step (ahead : ∀ name, Maintains Invariant Excused (ahead compile name))
    {instruction : Instruction}
    (each : ∀ inner, instruction.ComesTo inner → Maintains Invariant Excused (compile inner)) :
    Maintains Invariant Excused (step compile instruction) := by
  cases instruction with
  | program body => exact maintains_all fun inner member => each inner (.program member)
  | block body => exact maintains_all fun inner member => each inner (.block member)
  | layer spec => exact steps.layer spec
  | connect source target =>
      exact maintains_bind (steps.startConnect source target) fun scope =>
        maintains_bind (maintains_ensure ahead scope source) fun _ =>
        maintains_bind (maintains_ensure ahead scope target) fun _ =>
        steps.finishConnect scope source target
  | moduleDef name inputs outputs body =>
      refine maintains_bind (steps.takeAhead _ _) fun taken => ?_
      split
      · exact steps.log _
      · exact maintains_bind (steps.log _) fun _ => maintains_get_bind fun _ =>
          maintains_bind (maintains_children fun inner member =>
            each inner (.moduleDef member)) fun gathered => steps.finishModule name gathered
  | loop counter first last body =>
      exact maintains_bind (steps.loopRange counter first last body.length) fun range =>
        maintains_rounds steps (fun child member _ inner filled =>
          each inner (.loop member filled)) range.2 range.1
  | branch name test body alternative =>
      refine ends_bind (fun plan state =>
        (plan.first, plan.second) = splitBody body alternative ∧ Invariant state)
        ⟨fun holds ran => ⟨(runs_planBranch ran).2.2.2, (steps.planBranch _ _ _ _).kept holds ran⟩,
          (steps.planBranch _ _ _ _).excused⟩ fun plan => ?_
      have sides (split : (plan.first, plan.second) = splitBody body alternative) :
          Maintains Invariant Excused (branchRoot compile "then" plan.first >>= fun thenRoot =>
            branchRoot compile "else" plan.second >>= fun elseRoot =>
              finishBranch plan thenRoot elseRoot) := by
        have isFirst : plan.first = (splitBody body alternative).1 := congrArg Prod.fst split
        have isSecond : plan.second = (splitBody body alternative).2 := congrArg Prod.snd split
        refine maintains_bind (maintains_branchRoot steps fun child member _ inner filled =>
          each inner (.first (isFirst ▸ member) filled)) fun thenRoot => ?_
        refine maintains_bind (maintains_branchRoot steps fun child member _ inner filled =>
          each inner (.second (isSecond ▸ member) filled)) fun elseRoot => ?_
        exact steps.finishBranch plan thenRoot elseRoot
      exact ⟨fun holds => (sides holds.1).kept holds.2,
        fun holds => (sides holds.1).excused holds.2⟩
  | templateDef name parameters body => exact steps.templateDef name parameters body
  | templateCall name args =>
      exact maintains_bind (steps.openTemplate name args) fun opened =>
        maintains_filled steps fun _ _ inner _ => each inner (.templateCall inner)
  | call name args =>
      exact maintains_bind (steps.openTemplate name args) fun opened =>
        maintains_filled steps fun _ _ inner _ => each inner (.call inner)
  | expand group annotations body =>
      exact maintains_bind (steps.startExpand group annotations body.length) fun _ =>
        maintains_all fun inner member => each inner (.expand member)
  | _ => exact maintains_throw (steps.refused _)

end Constructs

end Compile

end NetBlueprint
