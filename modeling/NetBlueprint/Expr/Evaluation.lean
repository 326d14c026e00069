import NetBlueprint.Expr.Parser

/-!
Contract: evaluating integer expressions within 64 bits.

Every operation is exact or refused: a result outside the signed 64-bit range is an overflow, and
a zero divisor is a fault of its own. Division truncates toward zero. Operands are evaluated from
left to right and the first fault is the answer.
-/

namespace NetBlueprint

/-- Resolves a variable: `none` means that it is not bound. -/
abbrev Environment := String → Except ExprFault (Option Int)

def Environment.empty : Environment := fun _ => .ok none

def Operator.apply (operator : Operator) (left right : Int) : Except ExprFault Int :=
  match operator with
  | .divide =>
    if right = 0 then .error .divisionByZero
    else
      match Text.signed? (left.tdiv right) with
      | some value => .ok value
      | none => .error .overflow
  | .add =>
    match Text.signed? (left + right) with
    | some value => .ok value
    | none => .error .overflow
  | .subtract =>
    match Text.signed? (left - right) with
    | some value => .ok value
    | none => .error .overflow
  | .multiply =>
    match Text.signed? (left * right) with
    | some value => .ok value
    | none => .error .overflow

namespace Expr

def eval (environment : Environment) : Expr → Except ExprFault Int
  | .number value => .ok value
  | .reference name =>
    match environment name with
    | .error fault => .error fault
    | .ok none => .error (.unbound name)
    | .ok (some value) => .ok value
  | .negate operand =>
    match operand.eval environment with
    | .error fault => .error fault
    | .ok value =>
      match Text.signed? (-value) with
      | some result => .ok result
      | none => .error .overflow
  | .binary operator left right =>
    match left.eval environment with
    | .error fault => .error fault
    | .ok first =>
      match right.eval environment with
      | .error fault => .error fault
      | .ok second => operator.apply first second

def evaluateIn (environment : Environment) (source : String) : Except ExprError Int :=
  match parse source with
  | .error error => .error error
  | .ok expression =>
    match expression.eval environment with
    | .error fault => .error ⟨source, fault⟩
    | .ok value => .ok value

def evaluate (source : String) : Except ExprError Int :=
  evaluateIn Environment.empty source

end Expr

end NetBlueprint
