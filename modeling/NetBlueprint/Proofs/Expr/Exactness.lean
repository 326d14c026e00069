import NetBlueprint.Substitution.Basic

/-!
Contract: integer expressions are evaluated exactly or refused.

Over the unbounded integers every expression has a value as soon as its variables have one. The
evaluation within 64 bits agrees with that value as long as no node steps out of the range, and it
never comes back: a sum that is out of the range is refused even where a later term would bring it
back. What is refused is blamed on the first node, from left to right and operands before their
operation, that has a fault of its own.

Owns: values over the unbounded integers, the faults of single nodes, and what evaluation answers.

Does not own: how an expression is read.
-/

namespace NetBlueprint

open Text

/-- The integer that a variable is resolved to; zero where there is none. -/
def Environment.integer (environment : Environment) (name : String) : Int :=
  match environment name with
  | .ok (some value) => value
  | _ => 0

/-- An operation on unbounded integers. Division truncates toward zero. -/
def Operator.exact : Operator → Int → Int → Int
  | .add, left, right => left + right
  | .subtract, left, right => left - right
  | .multiply, left, right => left * right
  | .divide, left, right => left.tdiv right

namespace Expr

def InRange (value : Int) : Prop :=
  minSigned ≤ value ∧ value ≤ maxSigned

instance (value : Int) : Decidable (InRange value) :=
  inferInstanceAs (Decidable (_ ∧ _))

private theorem signed?_eq_ite (value : Int) :
    signed? value = if InRange value then some value else none := by
  have same : fitsSigned value = true ↔ InRange value := by
    rw [fitsSigned, Bool.and_eq_true, decide_eq_true_eq, decide_eq_true_eq]
    rfl
  rw [signed?]
  simp only [same]

/-! ## Values and faults -/

def exact (environment : Environment) : Expr → Int
  | .number value => value
  | .reference name => environment.integer name
  | .negate operand => -operand.exact environment
  | .binary operator left right =>
    operator.exact (left.exact environment) (right.exact environment)

/-- The nodes of an expression from left to right, operands before their operation. -/
def postOrder : Expr → List Expr
  | .number value => [.number value]
  | .reference name => [.reference name]
  | .negate operand => operand.postOrder ++ [.negate operand]
  | .binary operator left right =>
    left.postOrder ++ (right.postOrder ++ [.binary operator left right])

/-- What is wrong with an integer that evaluation comes to. -/
def rangeFault? (value : Int) : Option ExprFault :=
  if InRange value then none else some .overflow

/-- What is wrong with a node when nothing is wrong with those below it: a variable is not bound or
is refused by the environment, a divisor is zero, or the value is out of the range. -/
def ownFault? (environment : Environment) : Expr → Option ExprFault
  | .number value => rangeFault? value
  | .reference name =>
    match environment name with
    | .error fault => some fault
    | .ok none => some (.unbound name)
    | .ok (some _) => none
  | .negate operand => rangeFault? (-operand.exact environment)
  | .binary operator left right =>
    if operator = .divide ∧ right.exact environment = 0 then some .divisionByZero
    else rangeFault? (operator.exact (left.exact environment) (right.exact environment))

/-- Every variable is bound to an integer, no divisor is zero, and every part of the expression has
a value in the range. -/
structure IsExact (environment : Environment) (expression : Expr) : Prop where
  bound : ∀ name ∈ expression.occurrences, ∃ value, environment name = .ok (some value)
  divisors : ∀ left right, .binary .divide left right ∈ expression.postOrder →
    right.exact environment ≠ 0
  inRange : ∀ part ∈ expression.postOrder, InRange (part.exact environment)

/-- An integer is in order exactly if it lies in the range. -/
theorem rangeFault?_eq_none_iff {value : Int} : rangeFault? value = none ↔ InRange value := by
  rw [rangeFault?]
  split
  · exact iff_of_true rfl ‹_›
  · exact iff_of_false nofun ‹_›

private theorem ownFault?_reference_eq_none_iff {environment : Environment} {name : String} :
    ownFault? environment (.reference name) = none ↔
      ∃ value, environment name = .ok (some value) := by
  rw [ownFault?]
  split
  · rename_i resolved
    rw [resolved]
    exact ⟨nofun, nofun⟩
  · rename_i resolved
    rw [resolved]
    exact ⟨nofun, nofun⟩
  · exact iff_of_true rfl ⟨_, ‹_›⟩

private theorem ownFault?_binary_eq_none_iff {environment : Environment} {operator : Operator}
    {left right : Expr} :
    ownFault? environment (.binary operator left right) = none ↔
      ¬ (operator = .divide ∧ right.exact environment = 0) ∧
        InRange ((Expr.binary operator left right).exact environment) := by
  rw [ownFault?]
  split
  · exact iff_of_false nofun fun ⟨nonzero, _⟩ => nonzero ‹_›
  · rw [rangeFault?_eq_none_iff]
    exact ⟨fun fits => ⟨‹_›, fits⟩, And.right⟩

private theorem reference_mem_postOrder_iff {name : String} {expression : Expr} :
    .reference name ∈ expression.postOrder ↔ name ∈ expression.occurrences := by
  induction expression with
  | number value => simp [postOrder, occurrences]
  | reference other => simp [postOrder, occurrences]
  | negate operand inductionHypothesis => simp [postOrder, occurrences, inductionHypothesis]
  | binary operator left right leftHypothesis rightHypothesis =>
      simp [postOrder, occurrences, leftHypothesis, rightHypothesis]

/-- An expression is exact where no node of it has a fault. -/
theorem isExact_iff {environment : Environment} {expression : Expr}
    (bounded : ∀ name value, environment name = .ok (some value) → InRange value) :
    IsExact environment expression ↔
      ∀ part ∈ expression.postOrder, ownFault? environment part = none := by
  constructor
  · intro isExact part member
    cases part with
    | number value => exact rangeFault?_eq_none_iff.2 (isExact.inRange _ member)
    | reference name =>
        exact ownFault?_reference_eq_none_iff.2
          (isExact.bound name (reference_mem_postOrder_iff.1 member))
    | negate operand => exact rangeFault?_eq_none_iff.2 (isExact.inRange _ member)
    | binary operator left right =>
        refine ownFault?_binary_eq_none_iff.2 ⟨?_, isExact.inRange _ member⟩
        rintro ⟨rfl, zero⟩
        exact isExact.divisors left right member zero
  · intro noFault
    refine ⟨fun name occurs => ?_, fun left right member zero => ?_, fun part member => ?_⟩
    · exact ownFault?_reference_eq_none_iff.1
        (noFault _ (reference_mem_postOrder_iff.2 occurs))
    · exact (ownFault?_binary_eq_none_iff.1 (noFault _ member)).1 ⟨rfl, zero⟩
    · have sound := noFault part member
      cases part with
      | number value => exact rangeFault?_eq_none_iff.1 sound
      | reference name =>
          obtain ⟨value, resolved⟩ := ownFault?_reference_eq_none_iff.1 sound
          rw [exact, Environment.integer, resolved]
          exact bounded name value resolved
      | negate operand => exact rangeFault?_eq_none_iff.1 sound
      | binary operator left right => exact (ownFault?_binary_eq_none_iff.1 sound).2

/-! ## Evaluation -/

def answer (value : Int) (fault : Option ExprFault) : Except ExprFault Int :=
  fault.elim (.ok value) .error

private theorem signed_or_overflow (value : Int) :
    (match signed? value with
      | some result => Except.ok result
      | none => .error .overflow) = answer value (rangeFault? value) := by
  rw [signed?_eq_ite, rangeFault?]
  by_cases fits : InRange value
  · rw [if_pos fits, if_pos fits]
    rfl
  · rw [if_neg fits, if_neg fits]
    rfl

/-- An operation gives its exact result, unless a divisor is zero or the result is out of the range.
-/
theorem apply_eq (operator : Operator) (left right : Int) :
    operator.apply left right = answer (operator.exact left right)
      (if operator = .divide ∧ right = 0 then some .divisionByZero
        else rangeFault? (operator.exact left right)) := by
  cases operator with
  | divide =>
      rw [Operator.apply]
      by_cases zero : right = 0
      · simp [zero, answer]
      · rw [if_neg zero, if_neg (fun both => zero both.2)]
        exact signed_or_overflow _
  | add | subtract | multiply =>
      rw [if_neg (fun both => nomatch both.1)]
      exact signed_or_overflow _

/-- Evaluation answers with the value over the unbounded integers unless some node has a fault, and
else with the fault of the first one. -/
theorem eval_eq_answer {environment : Environment} {expression : Expr}
    (literals : ∀ value, .number value ∈ expression.postOrder → InRange value) :
    expression.eval environment = answer (expression.exact environment)
      (expression.postOrder.findSome? (ownFault? environment)) := by
  induction expression with
  | number value =>
      have fits := rangeFault?_eq_none_iff.2 (literals value (List.mem_singleton_self _))
      simp [eval, postOrder, ownFault?, fits, answer, exact]
  | reference name =>
      rw [eval, postOrder, exact, List.findSome?_singleton, ownFault?, Environment.integer]
      cases environment name with
      | error fault => rfl
      | ok resolved => cases resolved <;> rfl
  | negate operand inductionHypothesis =>
      have below := inductionHypothesis fun value member =>
        literals value (List.mem_append_left _ member)
      rw [eval, below, postOrder, List.findSome?_append]
      cases operand.postOrder.findSome? (ownFault? environment) with
      | some fault => rfl
      | none =>
          rw [Option.none_or, List.findSome?_singleton]
          exact signed_or_overflow _
  | binary operator left right leftHypothesis rightHypothesis =>
      have first := leftHypothesis fun value member =>
        literals value (List.mem_append_left _ member)
      have second := rightHypothesis fun value member =>
        literals value (List.mem_append_right _ (List.mem_append_left _ member))
      rw [eval, first, postOrder, List.findSome?_append]
      cases left.postOrder.findSome? (ownFault? environment) with
      | some fault => rfl
      | none =>
          rw [Option.none_or, second, List.findSome?_append]
          cases right.postOrder.findSome? (ownFault? environment) with
          | some fault => rfl
          | none =>
              rw [Option.none_or, List.findSome?_singleton]
              exact apply_eq operator _ _

/-! ## Variables bound to texts -/

/-- What is kept as a signed integer lies in the range. -/
theorem inRange_of_signed? {value result : Int} (kept : signed? value = some result) :
    InRange result := by
  rw [signed?_eq_ite] at kept
  split at kept
  · cases kept
    assumption
  · cases kept

/-- What a text is read as fits 64 bits. -/
theorem inRange_of_readSigned? {text : List Char} {value : Int}
    (read : readSigned? text = some value) : InRange value := by
  unfold readSigned? at read
  split at read <;>
    exact have ⟨_, _, kept⟩ := Option.bind_eq_some_iff.1 read
      inRange_of_signed? kept

/-- The environment of a substitution resolves a variable to the integer that the text bound to it
spells. -/
theorem environment_eq_iff {substitution : Substitution} {name : String} {value : Int} :
    substitution.environment name = .ok (some value) ↔
      ∃ text, substitution.value? name = some text ∧
        readSigned? (trimmed text.toList) = some value := by
  rw [Substitution.environment]
  cases substitution.value? name with
  | none => simp
  | some text => cases spelled : readSigned? (trimmed text.toList) <;> simp [spelled]

/-- In the environment of a substitution a variable is at fault where nothing is bound to it or
where the text bound to it spells no integer. -/
theorem ownFault?_environment {substitution : Substitution} {name : String} {fault : ExprFault} :
    ownFault? substitution.environment (.reference name) = some fault ↔
      substitution.value? name = none ∧ fault = .unbound name ∨
        ∃ text, substitution.value? name = some text ∧
          readSigned? (trimmed text.toList) = none ∧ fault = .notInteger name text := by
  rw [ownFault?, Substitution.environment]
  cases substitution.value? name with
  | none => simp [eq_comm]
  | some text => cases spelled : readSigned? (trimmed text.toList) <;> simp [spelled, eq_comm]

/-- An expression has a value exactly when it is exact, and then the value is that over the
unbounded integers. Otherwise the fault is that of the first node, from left to right and operands
before their operation, that has one. Where variables are bound to texts, one of them is at fault
because nothing is bound to it or because the text bound to it spells no integer. -/
theorem eval_exact_or_first_fault {environment : Environment} {expression : Expr}
    (literals : ∀ value, .number value ∈ expression.postOrder → InRange value)
    (bounded : ∀ name value, environment name = .ok (some value) → InRange value) :
    (∀ value, expression.eval environment = .ok value ↔
      IsExact environment expression ∧ expression.exact environment = value) ∧
    (∀ fault, expression.eval environment = .error fault ↔
      expression.postOrder.findSome? (ownFault? environment) = some fault) ∧
    ∀ substitution : Substitution, environment = substitution.environment →
      ∀ name fault, ownFault? environment (.reference name) = some fault ↔
        substitution.value? name = none ∧ fault = .unbound name ∨
          ∃ text, substitution.value? name = some text ∧
            readSigned? (trimmed text.toList) = none ∧ fault = .notInteger name text := by
  rw [isExact_iff bounded, ← List.findSome?_eq_none_iff, eval_eq_answer literals]
  refine ⟨fun value => ?_, fun fault => ?_, ?_⟩
  · cases expression.postOrder.findSome? (ownFault? environment) <;> simp [answer]
  · cases expression.postOrder.findSome? (ownFault? environment) <;> simp [answer]
  · rintro substitution rfl name fault
    exact ownFault?_environment

/-- A sum out of the range that a later term would bring back is an overflow, and what is wrong to
the right of it is not looked at. -/
theorem sum_refused_in_passing :
    let substitution : Substitution := ⟨[("n", " 7 "), ("word", "x")], []⟩
    let sum := Expr.binary .add (.number 9223372036854775807) (.reference "n")
    let expression := Expr.binary .multiply (.binary .subtract sum (.reference "n"))
      (.reference "word")
    (∀ value, .number value ∈ expression.postOrder → InRange value) ∧
      (∀ name value, substitution.environment name = .ok (some value) → InRange value) ∧
      expression.eval substitution.environment = .error .overflow ∧
      ¬ IsExact substitution.environment expression := by
  intro substitution sum expression
  have literals : ∀ value, .number value ∈ expression.postOrder → InRange value := by
    intro value member
    have only : value = 9223372036854775807 := by
      simpa [expression, sum, postOrder] using member
    subst only
    decide
  have bounded : ∀ name value, substitution.environment name = .ok (some value) →
      InRange value := by
    intro name value resolved
    obtain ⟨_, _, spelled⟩ := environment_eq_iff.1 resolved
    exact inRange_of_readSigned? spelled
  obtain ⟨exactly, first, _⟩ := eval_exact_or_first_fault literals bounded
  have refused := (first .overflow).2 (by decide +kernel)
  refine ⟨literals, bounded, refused, fun isExact => ?_⟩
  rw [(exactly _).2 ⟨isExact, rfl⟩] at refused
  cases refused

end Expr

end NetBlueprint
