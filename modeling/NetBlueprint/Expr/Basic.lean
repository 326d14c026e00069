import NetBlueprint.Text.Order

/-!
Contract: integer expressions and what can go wrong with them.

An expression is a tree of integers, variables, negations and the four operations. `Expr.render`
writes it with every operation in parentheses, so the text determines the tree. An `ExprError`
pairs a fault with the text it was found in.
-/

namespace NetBlueprint

inductive Operator where
  | add
  | subtract
  | multiply
  | divide
deriving DecidableEq, Repr

def Operator.symbol : Operator → Char
  | .add => '+'
  | .subtract => '-'
  | .multiply => '*'
  | .divide => '/'

inductive Expr where
  | number (value : Int)
  | reference (name : String)
  | negate (operand : Expr)
  | binary (operator : Operator) (left right : Expr)
deriving DecidableEq, Repr

/-- What goes wrong when an expression is read or evaluated. An unexpected character is given
with its position; none means the end of the text. -/
inductive ExprFault where
  | unexpected (offset : Nat) (found : Option Char)
  | unbound (name : String)
  | notInteger (name value : String)
  | divisionByZero
  | overflow
deriving DecidableEq, Repr

/-- A fault together with the text of the expression it belongs to. -/
structure ExprError where
  source : String
  fault : ExprFault
deriving DecidableEq, Repr

def ExprFault.kindName : ExprFault → String
  | .unexpected _ _ => "Syntax"
  | .unbound _ => "Unbound"
  | .notInteger _ _ => "NotInteger"
  | .divisionByZero => "DivisionByZero"
  | .overflow => "Overflow"

def describeFound : Option Char → String
  | some character => "'" ++ character.toString ++ "'"
  | none => "end of input"

def ExprError.message (error : ExprError) : String :=
  match error.fault with
  | .unexpected offset found =>
    s!"unexpected {describeFound found} at offset {offset} in '{error.source}'"
  | .unbound name => s!"unbound variable '{name}' in '{error.source}'"
  | .notInteger name value => s!"variable '{name}' is bound to non-integer '{value}'"
  | .divisionByZero => s!"division by zero in '{error.source}'"
  | .overflow => s!"integer overflow in '{error.source}'"

namespace Expr

/-- Writes an expression; every operation stands in parentheses. -/
def characters : Expr → List Char
  | .number value => (toString value).toList
  | .reference name => name.toList
  | .negate operand => '-' :: operand.characters
  | .binary operator left right =>
    '(' :: (left.characters ++ ' ' :: operator.symbol :: ' ' :: (right.characters ++ [')']))

def render (expression : Expr) : String :=
  String.ofList expression.characters

/-- The variables of an expression, from left to right and with repetitions. -/
def occurrences : Expr → List String
  | .number _ => []
  | .reference name => [name]
  | .negate operand => operand.occurrences
  | .binary _ left right => left.occurrences ++ right.occurrences

/-- The variables of an expression in ascending order, each once. -/
def names (expression : Expr) : List String :=
  Text.sortedNames expression.occurrences

end Expr

end NetBlueprint
