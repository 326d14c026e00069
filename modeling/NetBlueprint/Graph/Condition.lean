import NetBlueprint.Decimal.Layout
import NetBlueprint.Decimal.Literal
import NetBlueprint.Graph.Activation
import NetBlueprint.Graph.Fault
import NetBlueprint.Text.Blank
import NetBlueprint.Text.Word

/-!
Contract: conditions that choose between two branches.

A condition compares one element of a named input vector with a number: an identifier, an optional
index in brackets, a comparison and a literal, with blanks allowed around each part. A missing
index reads the first element. The comparison is made on 64-bit numbers.
-/

namespace NetBlueprint

inductive Comparison where
  | equal
  | unequal
  | less
  | atMost
  | greater
  | atLeast
deriving DecidableEq, Repr

namespace Comparison

def symbol : Comparison → String
  | .equal => "=="
  | .unequal => "!="
  | .less => "<"
  | .atMost => "<="
  | .greater => ">"
  | .atLeast => ">="

def holds (comparison : Comparison) (left right : Float) : Bool :=
  match comparison with
  | .equal => left == right
  | .unequal => left != right
  | .less => left < right
  | .atMost => left ≤ right
  | .greater => left > right
  | .atLeast => left ≥ right

/-- Takes a comparison off the front of a text; of two that fit, the longer. -/
def cut? : List Char → Option (Comparison × List Char)
  | [] => none
  | first :: rest =>
    if rest.head? = some '=' then
      match first with
      | '=' => some (.equal, rest.drop 1)
      | '!' => some (.unequal, rest.drop 1)
      | '<' => some (.atMost, rest.drop 1)
      | '>' => some (.atLeast, rest.drop 1)
      | _ => none
    else
      match first with
      | '<' => some (.less, rest)
      | '>' => some (.greater, rest)
      | _ => none

end Comparison

def splitAtComparison : List Char → Option (List Char × Comparison × List Char)
  | [] => none
  | first :: rest =>
    match Comparison.cut? (first :: rest) with
    | some (comparison, after) => some ([], comparison, after)
    | none =>
      (splitAtComparison rest).map fun (before, comparison, after) =>
        (first :: before, comparison, after)

structure Condition where
  ident : String
  index : Option Nat
  comparison : Comparison
  literal : Float

namespace Condition

inductive ParseFault where
  | noComparison
  | severalComparisons
  | notALiteral
  | unterminatedIndex
  | notAnIndex
  | notAnIdentifier
deriving DecidableEq, Repr

def ParseFault.reason : ParseFault → String
  | .noComparison => "no comparison operator"
  | .severalComparisons => "more than one comparison operator"
  | .notALiteral => "right operand is not a numeric literal"
  | .unterminatedIndex => "unterminated index"
  | .notAnIndex => "index is not a non-negative integer"
  | .notAnIdentifier => "left operand is not an identifier"

/-- Reads the left operand: an identifier with an optional index. -/
def operand (text : List Char) : Except ParseFault (List Char × Option Nat) :=
  match text.dropWhile (· != '[') with
  | [] => .ok (text, none)
  | _ :: inner =>
    if inner.getLast? = some ']' then
      match Text.readUnsigned? (Text.trimmed inner.dropLast) with
      | some index => .ok (Text.trimmed (text.takeWhile (· != '[')), some index)
      | none => .error .notAnIndex
    else .error .unterminatedIndex

def parseChars (text : List Char) : Except ParseFault Condition :=
  match splitAtComparison text with
  | none => .error .noComparison
  | some (before, comparison, after) =>
    let right := Text.trimmed after
    if (splitAtComparison right).isSome then .error .severalComparisons
    else
      match Decimal.readFloat? right with
      | none => .error .notALiteral
      | some literal =>
        match operand (Text.trimmed before) with
        | .error fault => .error fault
        | .ok (ident, index) =>
          if Text.isIdentifier ident then
            .ok { ident := String.ofList ident, index, comparison, literal }
          else .error .notAnIdentifier

/-- Reads a condition that is the whole text. -/
def parse (text : String) : Except GraphError Condition :=
  match parseChars text.toList with
  | .ok condition => .ok condition
  | .error fault => .error (.unsupportedCondition text fault.reason)

def render (condition : Condition) : String :=
  let index := match condition.index with
    | some position => s!"[{position}]"
    | none => ""
  condition.ident ++ index ++ " " ++ condition.comparison.symbol ++ " "
    ++ Decimal.plain condition.literal

def evaluate (condition : Condition) (inputs : List (String × Vector32)) :
    Except GraphError Bool :=
  match inputs.lookup condition.ident with
  | none => .error (.missingInput condition.ident)
  | some values =>
    let index := condition.index.getD 0
    match values[index]? with
    | none => .error (.indexOutOfRange condition.ident index values.length)
    | some value => .ok (condition.comparison.holds value.toFloat condition.literal)

end Condition

end NetBlueprint
