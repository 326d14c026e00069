import NetBlueprint.Expr.Basic
import NetBlueprint.Text.Blank
import NetBlueprint.Text.Integer
import NetBlueprint.Text.Word

/-!
Contract: reading integer expressions.

The grammar has sums of products of signed atoms:
`sum := product (('+' | '-') product)*`, `product := signed (('*' | '/') signed)*`,
`signed := ('-' | '+') signed | atom` and `atom := digits | identifier | '(' sum ')'`, with blanks
allowed before every token. Operations of one rank associate to the left, a unary plus leaves no
trace, and a run of digits beyond 64 bits is an overflow. Each parser returns what is left of the
text; a fault keeps the text it was found at, from which the position follows.
-/

namespace NetBlueprint.Expr

open NetBlueprint.Text

/-- Why a text is no expression: the rest of the text at a character that does not fit, or an
integer beyond 64 bits. -/
inductive ParseFault where
  | unexpected (rest : List Char)
  | overflow
deriving DecidableEq, Repr

/-- A parser returns an expression and the rest of the text. -/
abbrev Parser := List Char → Except ParseFault (Expr × List Char)

/-- Reads an atom; `inner` reads what stands between parentheses. -/
def atom (inner : Parser) (text : List Char) : Except ParseFault (Expr × List Char) :=
  match skipBlank text with
  | [] => .error (.unexpected [])
  | first :: rest =>
    if first = '(' then
      match inner rest with
      | .error fault => .error fault
      | .ok (expression, after) =>
        match skipBlank after with
        | ')' :: remaining => .ok (expression, remaining)
        | other => .error (.unexpected other)
    else if first.isDigit then
      let digits := (first :: rest).takeWhile Char.isDigit
      match signed? (naturalOfDigits digits) with
      | some value => .ok (.number value, (first :: rest).dropWhile Char.isDigit)
      | none => .error .overflow
    else if startsIdentifier first then
      .ok (.reference (String.ofList ((first :: rest).takeWhile isWordChar)),
        (first :: rest).dropWhile isWordChar)
    else
      .error (.unexpected (first :: rest))

def signed (atom : Parser) : Parser
  | [] => atom []
  | first :: rest =>
    if isBlank first then signed atom rest
    else if first = '-' then
      match signed atom rest with
      | .error fault => .error fault
      | .ok (operand, after) => .ok (.negate operand, after)
    else if first = '+' then signed atom rest
    else atom (first :: rest)

def multiplicative? : Char → Option Operator
  | '*' => some .multiply
  | '/' => some .divide
  | _ => none

def additive? : Char → Option Operator
  | '+' => some .add
  | '-' => some .subtract
  | _ => none

/-- Extends an operand by further operations of one rank. The budget bounds their number; each
takes at least one character. -/
def chain (operator? : Char → Option Operator) (operand : Parser) :
    Nat → Expr → List Char → Except ParseFault (Expr × List Char)
  | 0, left, text => .ok (left, skipBlank text)
  | budget + 1, left, text =>
    match skipBlank text with
    | [] => .ok (left, [])
    | first :: rest =>
      match operator? first with
      | none => .ok (left, first :: rest)
      | some operator =>
        match operand rest with
        | .error fault => .error fault
        | .ok (right, after) =>
          chain operator? operand budget (.binary operator left right) after

def ranked (operator? : Char → Option Operator) (operand : Parser) : Parser := fun text =>
  match operand text with
  | .error fault => .error fault
  | .ok (first, after) => chain operator? operand after.length first after

/-- Reads a sum; the budget bounds the nesting of parentheses. -/
def sum : Nat → Parser
  | 0 => fun text => .error (.unexpected text)
  | budget + 1 =>
    ranked additive? (ranked multiplicative? (signed (atom (sum budget))))

/-- Reads an expression that is the whole text. Each nesting takes a character, so the length of
the text bounds it. -/
def parseChars (text : List Char) : Except ParseFault Expr :=
  match sum (text.length + 1) text with
  | .error fault => .error fault
  | .ok (expression, after) =>
    match skipBlank after with
    | [] => .ok expression
    | rest => .error (.unexpected rest)

/-- The fault of a text, with the position counted in characters. -/
def ParseFault.locate (length : Nat) : ParseFault → ExprFault
  | .unexpected rest => .unexpected (length - rest.length) rest.head?
  | .overflow => .overflow

def parse (source : String) : Except ExprError Expr :=
  match parseChars source.toList with
  | .ok expression => .ok expression
  | .error fault => .error ⟨source, fault.locate source.toList.length⟩

end NetBlueprint.Expr
