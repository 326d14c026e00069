import NetBlueprint.Json.Reader
import NetBlueprint.Program.Decoding

/-!
Contract: loading a program from a JSON text.

The first fault in the order of the text is the answer. The label of the root is checked as soon
as it is met, the fields when the root has been read to its end, and what follows the root last.
The root has to be a program or a block.
-/

namespace NetBlueprint.Program

open NetBlueprint.Json

/-- Why a text is not a program: it ends early, it is not JSON, it is not an instruction, or the
instruction cannot stand at the root. -/
inductive LoadError where
  | unfinished
  | malformed
  | mismatch
  | notAProgram (opcode : Opcode)
deriving DecidableEq, Repr

/-- The message for a root that is neither a program nor a block. -/
def notAProgramMessage (opcode : Opcode) : String :=
  s!"invalid program: root instruction must be PROGRAM or BLOCK, got {opcode.label}"

def LoadError.ofFault : Fault → LoadError
  | .unfinished => .unfinished
  | .malformed => .malformed

/-- Number of lists and records that may be nested. -/
def nestingLimit : Nat := 127

def lift {Result : Type} : Except Fault Result → Except LoadError Result
  | .ok result => .ok result
  | .error fault => .error (.ofFault fault)

/-- Reads the label of the root. A list or a record in its place is refused unread. -/
def readLabel (text : List Char) : Except LoadError (Opcode × List Char) :=
  match skipSpace text with
  | '[' :: _ => .error .mismatch
  | '\x7b' :: _ => .error .mismatch
  | other =>
    match readValue 0 other with
    | .error fault => .error (.ofFault fault)
    | .ok (.text label, rest) =>
      match Opcode.ofLabel? label with
      | some opcode => .ok (opcode, rest)
      | none => .error .mismatch
    | .ok _ => .error .mismatch

/-- Reads the members of the root after its opening brace. The budget bounds their number; the
fields already read stand in front, the last first. -/
def readRootMembers : Nat → Option Opcode → List (String × Value) → List Char →
    Except LoadError ((Opcode × Fields) × List Char)
  | 0, _, _, _ => .error .unfinished
  | budget + 1, label, done, text =>
    match nextElement '\x7d' (label.isNone && done.isEmpty) text with
    | .error fault => .error (.ofFault fault)
    | .ok (none, rest) =>
      match label with
      | some opcode => .ok ((opcode, .named done.reverse), rest)
      | none => .error .mismatch
    | .ok (some element, _) =>
      match readKey element with
      | .error fault => .error (.ofFault fault)
      | .ok (key, afterKey) =>
        if key = tagKey && label.isSome then .error .mismatch
        else
          match readColon afterKey with
          | .error fault => .error (.ofFault fault)
          | .ok afterColon =>
            if key = tagKey then
              match readLabel afterColon with
              | .error error => .error error
              | .ok (opcode, rest) => readRootMembers budget (some opcode) done rest
            else
              match readValue (nestingLimit - 1) afterColon with
              | .error fault => .error (.ofFault fault)
              | .ok (value, rest) => readRootMembers budget label ((key, value) :: done) rest

def readRootItems (text : List Char) : Except LoadError ((Opcode × Fields) × List Char) :=
  match nextElement ']' true text with
  | .error fault => .error (.ofFault fault)
  | .ok (none, _) => .error .mismatch
  | .ok (some element, _) =>
    match readLabel element with
    | .error error => .error error
    | .ok (opcode, rest) =>
      let start : List Value := [.text opcode.label]
      match readElements ']' (readValue (nestingLimit - 1)) (rest.length + 1) start rest with
      | .error fault => .error (.ofFault fault)
      | .ok (items, after) => .ok ((opcode, .positional (items.drop 1)), after)

def readRoot (text : List Char) : Except LoadError ((Opcode × Fields) × List Char) :=
  match skipSpace text with
  | '\x7b' :: rest => readRootMembers (rest.length + 1) none [] rest
  | '[' :: rest => readRootItems rest
  | other =>
    match readValue 0 other with
    | .error fault => .error (.ofFault fault)
    | .ok _ => .error .mismatch

def loadInstruction (text : String) : Except LoadError Instruction :=
  match readRoot text.toList with
  | .error error => .error error
  | .ok ((opcode, fields), rest) =>
    match ofFields? (ofValueWithin? nestingLimit) opcode fields with
    | none => .error .mismatch
    | some instruction =>
      if (skipSpace rest).isEmpty then .ok instruction else .error .malformed

def load (text : String) : Except LoadError Instruction :=
  match loadInstruction text with
  | .error error => .error error
  | .ok instruction =>
    match instruction.opcode with
    | .program | .block => .ok instruction
    | other => .error (.notAProgram other)

end NetBlueprint.Program
