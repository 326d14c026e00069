import NetBlueprint.Json.Value
import NetBlueprint.Decimal.Layout

/-!
Contract: writing JSON texts.

`compact` writes no blanks at all, `pretty` puts every element on a line of its own and indents by
two blanks. A number that is not finite is written as `null`. Of the characters of a string only
the quote, the backslash and the control characters are escaped.
-/

namespace NetBlueprint.Json

def controlEscape (character : Char) : List Char :=
  let digits := Nat.toDigits 16 character.toNat
  '\\' :: 'u' :: (List.replicate (4 - digits.length) '0' ++ digits)

def escapeChar (character : Char) : List Char :=
  match character with
  | '"' => ['\\', '"']
  | '\\' => ['\\', '\\']
  | '\x08' => ['\\', 'b']
  | '\x0c' => ['\\', 'f']
  | '\n' => ['\\', 'n']
  | '\r' => ['\\', 'r']
  | '\t' => ['\\', 't']
  | other => if other.toNat < 0x20 then controlEscape other else [other]

def quoted (text : String) : String :=
  String.ofList ('"' :: (text.toList.flatMap escapeChar ++ ['"']))

/-- Writes a number that is finite, and `null` for any other. -/
def writeNumber (layout : Decimal.Layout) (number : Decimal.Decoded) : String :=
  match number with
  | .finite _ _ => String.ofList (layout.write number)
  | _ => "null"

/-- Writes a value that is neither a list nor a record. -/
def writeScalar : Value → String
  | .null => "null"
  | .boolean value => if value then "true" else "false"
  | .integer value => toString value
  | .decimal value => writeNumber Decimal.jsonLayout64 (Decimal.decode64 value)
  | .single value => writeNumber Decimal.jsonLayout32 (Decimal.decode32 value)
  | .text value => quoted value
  | .list _ => "[]"
  | .record _ => "\x7b\x7d"

mutual

/-- Writes a value without blanks. -/
def compact : Value → String
  | .list items => "[" ++ compactItems items ++ "]"
  | .record members => "\x7b" ++ compactMembers members ++ "\x7d"
  | .null => writeScalar .null
  | .boolean value => writeScalar (.boolean value)
  | .integer value => writeScalar (.integer value)
  | .decimal value => writeScalar (.decimal value)
  | .single value => writeScalar (.single value)
  | .text value => writeScalar (.text value)

def compactItems : List Value → String
  | [] => ""
  | [item] => compact item
  | item :: rest => compact item ++ "," ++ compactItems rest

def compactMembers : List (String × Value) → String
  | [] => ""
  | [(key, value)] => quoted key ++ ":" ++ compact value
  | (key, value) :: rest => quoted key ++ ":" ++ compact value ++ "," ++ compactMembers rest

end

/-- A line break and the blanks before an element at a given depth. -/
def lineStart (depth : Nat) : String :=
  String.ofList ('\n' :: List.replicate (2 * depth) ' ')

mutual

def pretty (depth : Nat) : Value → String
  | .list [] => "[]"
  | .list (item :: rest) =>
    "[" ++ lineStart (depth + 1) ++ pretty (depth + 1) item ++ prettyItems (depth + 1) rest
      ++ lineStart depth ++ "]"
  | .record [] => "\x7b\x7d"
  | .record ((key, value) :: rest) =>
    "\x7b" ++ lineStart (depth + 1) ++ quoted key ++ ": " ++ pretty (depth + 1) value
      ++ prettyMembers (depth + 1) rest ++ lineStart depth ++ "\x7d"
  | .null => writeScalar .null
  | .boolean value => writeScalar (.boolean value)
  | .integer value => writeScalar (.integer value)
  | .decimal value => writeScalar (.decimal value)
  | .single value => writeScalar (.single value)
  | .text value => writeScalar (.text value)

/-- Writes further items, each after a comma on a line of its own. -/
def prettyItems (depth : Nat) : List Value → String
  | [] => ""
  | item :: rest => "," ++ lineStart depth ++ pretty depth item ++ prettyItems depth rest

def prettyMembers (depth : Nat) : List (String × Value) → String
  | [] => ""
  | (key, value) :: rest =>
    "," ++ lineStart depth ++ quoted key ++ ": " ++ pretty depth value ++ prettyMembers depth rest

end

end NetBlueprint.Json
