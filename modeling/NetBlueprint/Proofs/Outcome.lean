/-!
Contract: outcomes of computations that may fail, taken apart.

A chain of such computations has a result exactly when each of them has one. Where they also keep a
state, each of them starts from the state that the one before it left. Two computations may be
compared: both fail, or both have results that are related, and chains are compared step by step.
-/

namespace NetBlueprint.Outcome

variable {Fault First Second : Type}

/-- A sequence succeeds exactly if both of its parts do. -/
theorem bind_eq_ok {outcome : Except Fault First} {next : First → Except Fault Second}
    {result : Second} :
    (outcome >>= next) = .ok result ↔ ∃ value, outcome = .ok value ∧ next value = .ok result := by
  cases outcome with
  | error fault =>
      constructor
      · intro same
        cases same
      · rintro ⟨_, same, _⟩
        cases same
  | ok value =>
      constructor
      · exact fun same => ⟨value, rfl, same⟩
      · rintro ⟨_, same, last⟩
        cases same
        exact last

theorem pure_eq_ok {value result : First} :
    (pure value : Except Fault First) = .ok result ↔ value = result :=
  Except.ok.injEq value result ▸ Iff.rfl

/-- A change of results does not change whether there is one. -/
theorem map_eq_ok {outcome : Except Fault First} {change : First → Second} {result : Second} :
    outcome.map change = .ok result ↔ ∃ value, outcome = .ok value ∧ change value = result := by
  cases outcome with
  | error fault =>
      constructor
      · intro same
        cases same
      · rintro ⟨_, same, _⟩
        cases same
  | ok value =>
      constructor
      · intro same
        cases same
        exact ⟨value, rfl, rfl⟩
      · rintro ⟨_, same, rfl⟩
        cases same
        rfl

theorem run_bind {State : Type} (action : ExceptT Fault (StateM State) First)
    (next : First → ExceptT Fault (StateM State) Second) (before : State) :
    (action >>= next).run before =
      match action.run before with
      | (.ok middle, between) => (next middle).run between
      | (.error fault, between) => (.error fault, between) := by
  simp only [bind, ExceptT.run, ExceptT.bind, ExceptT.mk, StateT.bind, ExceptT.bindCont]
  cases action before with
  | mk outcome between => cases outcome <;> rfl

/-! ## Outcomes of two computations -/

/-- Both outcomes are faults that are related, or both are results that are. -/
inductive Matches {OtherFault : Type} (Faults : Fault → OtherFault → Prop)
    (Results : First → Second → Prop) : Except Fault First → Except OtherFault Second → Prop where
  | error {one : Fault} {other : OtherFault} (faults : Faults one other) :
      Matches Faults Results (.error one) (.error other)
  | ok {one : First} {other : Second} (results : Results one other) :
      Matches Faults Results (.ok one) (.ok other)

namespace Matches

variable {OtherFault Third Fourth : Type} {Faults : Fault → OtherFault → Prop}
  {Results : First → Second → Prop} {LastResults : Third → Fourth → Prop}
  {one : Except Fault First} {other : Except OtherFault Second}

/-- Matching outcomes followed by matching ones match. -/
theorem bind {next : First → Except Fault Third} {otherNext : Second → Except OtherFault Fourth}
    (first : Matches Faults Results one other)
    (second : ∀ value otherValue, Results value otherValue →
      Matches Faults LastResults (next value) (otherNext otherValue)) :
    Matches Faults LastResults (one >>= next) (other >>= otherNext) := by
  cases first with
  | error faults => exact .error faults
  | ok results => exact second _ _ results

theorem map {change : First → Third} {otherChange : Second → Fourth}
    (first : Matches Faults Results one other)
    (changes : ∀ value otherValue, Results value otherValue →
      LastResults (change value) (otherChange otherValue)) :
    Matches Faults LastResults (one.map change) (other.map otherChange) := by
  cases first with
  | error faults => exact .error faults
  | ok results => exact .ok (changes _ _ results)

theorem imp {MoreResults : First → Second → Prop} (first : Matches Faults Results one other)
    (weaker : ∀ value otherValue, Results value otherValue → MoreResults value otherValue) :
    Matches Faults MoreResults one other := by
  cases first with
  | error faults => exact .error faults
  | ok results => exact .ok (weaker _ _ results)

end Matches

end NetBlueprint.Outcome
