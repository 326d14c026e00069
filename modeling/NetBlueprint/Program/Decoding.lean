import NetBlueprint.Json.Value
import NetBlueprint.Program.Instruction
import NetBlueprint.Text.Order

/-!
Contract: instructions out of JSON values.

An instruction is a record with a member `op` and its fields by name, or a list that starts with
the operation and goes on with the fields in their order. Below the root an operation may be given
by its position instead of its label. Unknown members are ignored, a field given
twice is refused, and of a list the last fields may be missing where they have a default. Optional
fields may be null; fields with a default may only be missing.
-/

namespace NetBlueprint.Program

open NetBlueprint.Json (Value)

inductive Fields where
  | named (members : List (String × Value))
  | positional (items : List Value)

abbrev Slots := String → Option Value

/-- The fields with given names, unless one is given twice or a list is too long. -/
def Fields.slots? (names : List String) : Fields → Option Slots
  | .named members =>
    if names.all fun name => (members.filter fun entry => entry.1 == name).length ≤ 1 then
      some fun name => members.lookup name
    else none
  | .positional items =>
    if items.length ≤ names.length then some fun name => (names.zip items).lookup name else none

def text? : Value → Option String
  | .text content => some content
  | _ => none

def listOf? {Item : Type} (item? : Value → Option Item) : Value → Option (List Item)
  | .list items => items.mapM item?
  | _ => none

/-- Reads a record of texts; of a repeated key the last value stays. -/
def table? : Value → Option TextTable
  | .record members =>
    (members.mapM fun (member : String × Value) =>
      (text? member.2).map fun content => (member.1, content)).map Text.sortedTable
  | _ => none

/-- Reads an integer that fits signed 64 bits, or a text. -/
def intField? : Value → Option IntField
  | .integer value => (Text.signed? value).map .literal
  | .text content => some (.expression content)
  | _ => none

/-- The 64-bit number closest to an integer that fits 64 bits. -/
def floatOfInteger (value : Int) : Float :=
  let magnitude := (UInt64.ofNat value.natAbs).toFloat
  if value < 0 then -magnitude else magnitude

def rate? : Value → Option Float
  | .integer value => some (floatOfInteger value)
  | .decimal value => some value
  | _ => none

def required {Field : Type} (read? : Value → Option Field) (slot : Option Value) : Option Field :=
  slot.bind read?

def defaulted {Field : Type} (read? : Value → Option Field) (default : Field)
    (slot : Option Value) : Option Field :=
  match slot with
  | none => some default
  | some value => read? value

def optional {Field : Type} (read? : Value → Option Field) (slot : Option Value) :
    Option (Option Field) :=
  match slot with
  | none => some none
  | some .null => some none
  | some value => (read? value).map some

def fieldNames : Opcode → List String
  | .program | .block | .otherwise => ["body"]
  | .layer =>
    ["type", "name", "size", "shape", "activation", "dim", "depth", "heads", "dropout", "params",
      "tags", "inputs", "outputs", "weights"]
  | .connect => ["from", "to"]
  | .moduleDef => ["name", "inputs", "outputs", "body"]
  | .moduleCall | .templateCall | .call => ["name", "args"]
  | .loop => ["var", "fromVal", "toVal", "body"]
  | .branch => ["name", "cond", "body", "else"]
  | .condition => ["expr"]
  | .templateDef => ["name", "params", "body"]
  | .expand => ["group", "meta", "body"]
  | .constant => ["name", "expr"]
  | .file => ["path"]

def layerSpec? (slots : Slots) : Option LayerSpec := do
  let layerType ← required text? (slots "type")
  let name ← required text? (slots "name")
  let size ← optional intField? (slots "size")
  let shape ← optional (listOf? intField?) (slots "shape")
  let activation ← optional text? (slots "activation")
  let dim ← optional intField? (slots "dim")
  let depth ← optional intField? (slots "depth")
  let heads ← optional intField? (slots "heads")
  let dropout ← optional rate? (slots "dropout")
  let params ← defaulted table? [] (slots "params")
  let tags ← defaulted (listOf? text?) [] (slots "tags")
  let inputs ← defaulted (listOf? text?) [] (slots "inputs")
  let outputs ← defaulted (listOf? text?) [] (slots "outputs")
  let weights ← optional text? (slots "weights")
  return { layerType, name, size, shape, activation, dim, depth, heads, dropout, params, tags,
           inputs, outputs, weights }

/-- Reads an instruction from its operation and fields; `child?` reads the instructions below
it. -/
def ofFields? (child? : Value → Option Instruction) (opcode : Opcode) (fields : Fields) :
    Option Instruction := do
  let slots ← fields.slots? (fieldNames opcode)
  let body? := defaulted (listOf? child?) []
  let texts? := defaulted (listOf? text?) []
  match opcode with
  | .program => return .program (← body? (slots "body"))
  | .block => return .block (← body? (slots "body"))
  | .otherwise => return .otherwise (← body? (slots "body"))
  | .layer => return .layer (← layerSpec? slots)
  | .connect => return .connect (← required text? (slots "from")) (← required text? (slots "to"))
  | .moduleDef =>
    return .moduleDef (← required text? (slots "name")) (← texts? (slots "inputs"))
      (← texts? (slots "outputs")) (← body? (slots "body"))
  | .moduleCall => return .moduleCall (← required text? (slots "name")) (← texts? (slots "args"))
  | .templateCall =>
    return .templateCall (← required text? (slots "name")) (← texts? (slots "args"))
  | .call => return .call (← required text? (slots "name")) (← texts? (slots "args"))
  | .loop =>
    return .loop (← required text? (slots "var")) (← required text? (slots "fromVal"))
      (← required text? (slots "toVal")) (← body? (slots "body"))
  | .branch =>
    return .branch (← optional text? (slots "name")) (← required child? (slots "cond"))
      (← body? (slots "body")) (← body? (slots "else"))
  | .condition => return .condition (← required text? (slots "expr"))
  | .templateDef =>
    return .templateDef (← required text? (slots "name")) (← texts? (slots "params"))
      (← body? (slots "body"))
  | .expand =>
    return .expand (← optional text? (slots "group")) (← defaulted table? [] (slots "meta"))
      (← body? (slots "body"))
  | .constant =>
    return .constant (← required text? (slots "name")) (← required text? (slots "expr"))
  | .file => return .file (← required text? (slots "path"))

/-- The key of the member that holds the operation of an instruction. -/
def tagKey : String := "op"

/-- The operation that stands first in an instruction below the root: its label, or its position
among all operations. -/
def opcode? : Value → Option Opcode
  | .text label => Opcode.ofLabel? label
  | .integer position => if position < 0 then none else Opcode.all[position.toNat]?
  | _ => none

/-- Separates the operation of an instruction from its fields. -/
def tagged? : Value → Option (Opcode × Fields)
  | .record members =>
    match members.filter fun entry => entry.1 == tagKey with
    | [(_, tag)] =>
      (opcode? tag).map fun opcode =>
        (opcode, .named (members.filter fun entry => entry.1 != tagKey))
    | _ => none
  | .list (tag :: items) => (opcode? tag).map fun opcode => (opcode, .positional items)
  | _ => none

def ofValueWithin? : Nat → Value → Option Instruction
  | 0, _ => none
  | depth + 1, value =>
    match tagged? value with
    | none => none
    | some (opcode, fields) => ofFields? (ofValueWithin? depth) opcode fields

def ofValue? (value : Value) : Option Instruction :=
  ofValueWithin? value.depth value

end NetBlueprint.Program
