import NetBlueprint.Compiler.Visit
import NetBlueprint.Proofs.Outcome

/-!
Contract: successful actions of the compiler, taken apart.

`Runs action before result after` says that an action succeeds. A sequence of actions succeeds
exactly when its parts do, one from where the other ends. A watched action is read as an action
that takes the visits gathered so far and returns them with its result.
-/

namespace NetBlueprint.Compile

/-- An action succeeds from one state with a result and leads to another state. -/
def Runs {Result : Type} (action : CompileM Result) (before : CompileState) (result : Result)
    (after : CompileState) : Prop :=
  action.run before = (.ok result, after)

section Plain

variable {Result Next : Type} {before after : CompileState}

theorem runs_pure {value result : Result} :
    Runs (pure value) before result after ↔ result = value ∧ after = before := by
  constructor
  · intro ran
    cases ran
    exact ⟨rfl, rfl⟩
  · rintro ⟨rfl, rfl⟩
    rfl

/-- A sequence succeeds exactly when both of its parts do. -/
theorem runs_bind {action : CompileM Result} {next : Result → CompileM Next} {result : Next} :
    Runs (action >>= next) before result after ↔
      ∃ middle between,
        Runs action before middle between ∧ Runs (next middle) between result after := by
  unfold Runs
  rw [Outcome.run_bind]
  rcases action.run before with ⟨outcome, between⟩
  cases outcome with
  | error fault =>
      constructor
      · intro ran
        cases ran
      · rintro ⟨_, _, same, _⟩
        cases same
  | ok middle =>
      constructor
      · intro ran
        exact ⟨middle, between, rfl, ran⟩
      · rintro ⟨_, _, same, ran⟩
        cases same
        exact ran

theorem runs_get {result : CompileState} :
    Runs get before result after ↔ result = before ∧ after = before := by
  constructor
  · intro ran
    cases ran
    exact ⟨rfl, rfl⟩
  · rintro ⟨rfl, rfl⟩
    rfl

/-- What follows a look at the state starts from that state. -/
theorem runs_get_bind {next : CompileState → CompileM Next} {result : Next} :
    Runs (get >>= next) before result after ↔ Runs (next before) before result after :=
  Iff.rfl

theorem runs_set {state : CompileState} {result : PUnit} :
    Runs (set state) before result after ↔ after = state := by
  constructor
  · intro ran
    cases ran
    rfl
  · rintro rfl
    rfl

theorem runs_modify {change : CompileState → CompileState} {result : PUnit} :
    Runs (modify change) before result after ↔ after = change before := by
  constructor
  · intro ran
    cases ran
    rfl
  · rintro rfl
    rfl

theorem runs_log {line : String} : Runs (log line) before () after ↔ after = before.logged line :=
  runs_modify

/-- Nothing succeeds that throws a fault. -/
theorem not_runs_throw {fault : CompileFault} {result : Result} :
    ¬ Runs (throw fault) before result after := by
  intro ran
  cases ran

/-- An expression succeeds with its value and changes nothing. -/
theorem runs_expression {outcome : Except ExprError Result} {result : Result} :
    Runs (expression outcome) before result after ↔ outcome = .ok result ∧ after = before := by
  cases outcome with
  | error error =>
      simp only [expression]
      constructor
      · exact fun ran => absurd ran not_runs_throw
      · rintro ⟨same, _⟩
        cases same
  | ok value =>
      simp only [expression, runs_pure, Except.ok.injEq]
      exact and_congr_left' eq_comm

/-! ### Actions that never fail -/

def Total (action : CompileM Result) : Prop :=
  ∀ before, ∃ result after, Runs action before result after

theorem total_pure (value : Result) : Total (pure value) :=
  fun before => ⟨value, before, runs_pure.2 ⟨rfl, rfl⟩⟩

theorem total_set (state : CompileState) : Total (set state) :=
  fun _ => ⟨(), state, runs_set.2 rfl⟩

theorem total_modify (change : CompileState → CompileState) : Total (modify change) :=
  fun before => ⟨(), change before, runs_modify.2 rfl⟩

theorem total_bind {action : CompileM Result} {next : Result → CompileM Next}
    (first : Total action) (second : ∀ value, Total (next value)) : Total (action >>= next) := by
  intro before
  obtain ⟨middle, between, firstRan⟩ := first before
  obtain ⟨result, after, secondRan⟩ := second middle between
  exact ⟨result, after, runs_bind.2 ⟨middle, between, firstRan, secondRan⟩⟩

theorem total_get_bind {next : CompileState → CompileM Next}
    (each : ∀ state, Total (next state)) : Total (get >>= next) := by
  intro before
  obtain ⟨result, after, ran⟩ := each before before
  exact ⟨result, after, runs_get_bind.2 ran⟩

end Plain

section Watched

variable {Result Next : Type} {before after : CompileState} {earlier later : List Visit}

theorem runs_watched_pure {value result : Result} :
    Runs ((pure value : WatchedM Result) earlier) before (result, later) after ↔
      result = value ∧ later = earlier ∧ after = before := by
  show Runs (pure (value, earlier)) before (result, later) after ↔ _
  rw [runs_pure, Prod.mk.injEq, and_assoc]

/-- A watched sequence gathers the visits of its parts. -/
theorem runs_watched_bind {action : WatchedM Result} {next : Result → WatchedM Next}
    {result : Next} :
    Runs ((action >>= next) earlier) before (result, later) after ↔
      ∃ middle visits between,
        Runs (action earlier) before (middle, visits) between ∧
          Runs (next middle visits) between (result, later) after := by
  show Runs (action earlier >>= fun pair => next pair.1 pair.2) before (result, later) after ↔ _
  rw [runs_bind]
  constructor
  · rintro ⟨⟨middle, visits⟩, between, first, second⟩
    exact ⟨middle, visits, between, first, second⟩
  · rintro ⟨middle, visits, between, first, second⟩
    exact ⟨(middle, visits), between, first, second⟩

/-- An action that comes to no instruction leaves the gathered visits as they are. -/
theorem runs_watched_lift {action : CompileM Result} {result : Result} :
    Runs ((liftM action : WatchedM Result) earlier) before (result, later) after ↔
      later = earlier ∧ Runs action before result after := by
  show Runs (action >>= fun value => pure (value, earlier)) before (result, later) after ↔ _
  rw [runs_bind]
  constructor
  · rintro ⟨middle, between, first, second⟩
    rw [runs_pure, Prod.mk.injEq] at second
    obtain ⟨⟨rfl, rfl⟩, rfl⟩ := second
    exact ⟨rfl, first⟩
  · rintro ⟨rfl, ran⟩
    exact ⟨result, after, ran, runs_pure.2 ⟨rfl, rfl⟩⟩

end Watched

end NetBlueprint.Compile
