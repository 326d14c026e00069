import NetBlueprint.Text.Blank
import NetBlueprint.Text.Integer

/-!
Contract: the instruction tree of a network program.

A program declares layers and connections, groups them into modules, repeats them in loops,
chooses between them in branches, and abbreviates them by templates. Text fields may hold bracket
groups and bare names that are filled in when the program is compiled; the tree itself never
changes.
-/

namespace NetBlueprint

inductive Opcode where
  | program
  | block
  | layer
  | connect
  | moduleDef
  | moduleCall
  | loop
  | branch
  | condition
  | templateDef
  | templateCall
  | call
  | expand
  | constant
  | file
  | otherwise
deriving DecidableEq, Repr

namespace Opcode

def label : Opcode → String
  | .program => "PROGRAM"
  | .block => "BLOCK"
  | .layer => "LAYER"
  | .connect => "CONNECT"
  | .moduleDef => "MODULE_DEF"
  | .moduleCall => "MODULE_CALL"
  | .loop => "FOR"
  | .branch => "IF"
  | .condition => "CONDITION"
  | .templateDef => "MACRO_DEF"
  | .templateCall => "MACRO_CALL"
  | .call => "CALL"
  | .expand => "EXPAND"
  | .constant => "LET"
  | .file => "FILE"
  | .otherwise => "ELSE"

def all : List Opcode :=
  [.program, .block, .layer, .connect, .moduleDef, .moduleCall, .loop, .branch, .condition,
    .templateDef, .templateCall, .call, .expand, .constant, .file, .otherwise]

def ofLabel? (text : String) : Option Opcode :=
  all.find? fun opcode => opcode.label == text

/-- Every operation is listed. -/
theorem mem_all (opcode : Opcode) : opcode ∈ all := by
  cases opcode <;> simp [all]

/-- A label determines its operation. -/
theorem ofLabel?_label (opcode : Opcode) : ofLabel? opcode.label = some opcode := by
  cases opcode <;> rfl

end Opcode

/-- An integer field: a literal, or a text that becomes a number once it is filled in. -/
inductive IntField where
  | literal (value : Int)
  | expression (text : String)
deriving DecidableEq, Repr

namespace IntField

def literal? : IntField → Option Int
  | .literal value => some value
  | .expression text => Text.readSigned? (Text.trimmed text.toList)

def render : IntField → String
  | .literal value => toString value
  | .expression text => text

end IntField

/-- Texts with texts as keys, each key once, in ascending order. -/
abbrev TextTable := List (String × String)

/-- The fields of a layer declaration. Which of them matter depends on the type. -/
structure LayerSpec where
  layerType : String
  name : String
  size : Option IntField
  shape : Option (List IntField)
  activation : Option String
  dim : Option IntField
  depth : Option IntField
  heads : Option IntField
  dropout : Option Float
  params : TextTable
  tags : List String
  inputs : List String
  outputs : List String
  weights : Option String

namespace LayerSpec

def kind (spec : LayerSpec) : String :=
  spec.layerType.toLower

def isInput (spec : LayerSpec) : Bool :=
  spec.kind == "input"

def isOutput (spec : LayerSpec) : Bool :=
  spec.kind == "output"

/-- Decides whether two declarations agree in every field; dropout rates are compared as
numbers. -/
def same (left right : LayerSpec) : Bool :=
  left.layerType == right.layerType && left.name == right.name && left.size == right.size
    && left.shape == right.shape && left.activation == right.activation
    && left.dim == right.dim && left.depth == right.depth && left.heads == right.heads
    && left.dropout == right.dropout && left.params == right.params && left.tags == right.tags
    && left.inputs == right.inputs && left.outputs == right.outputs
    && left.weights == right.weights

end LayerSpec

inductive Instruction where
  /-- The root of a program. -/
  | program (body : List Instruction)
  /-- Plain grouping. -/
  | block (body : List Instruction)
  /-- Declares one layer. -/
  | layer (spec : LayerSpec)
  /-- Declares one connection. -/
  | connect (source target : String)
  /-- Declares a named group of layers. -/
  | moduleDef (name : String) (inputs outputs : List String) (body : List Instruction)
  /-- Instantiates a module by name. -/
  | moduleCall (name : String) (args : List String)
  /-- Repeats its body for every value between two inclusive bounds. -/
  | loop (counter first last : String) (body : List Instruction)
  /-- Builds two branches and a layer that chooses between them. -/
  | branch (name : Option String) (test : Instruction) (body alternative : List Instruction)
  /-- The condition of a branch. -/
  | condition (text : String)
  /-- Declares a template. -/
  | templateDef (name : String) (parameters : List String) (body : List Instruction)
  /-- Fills in a template. -/
  | templateCall (name : String) (args : List String)
  /-- Another spelling of a template call. -/
  | call (name : String) (args : List String)
  /-- Inlines its body and records annotations. -/
  | expand (group : Option String) (annotations : TextTable) (body : List Instruction)
  /-- Binds a constant. -/
  | constant (name text : String)
  /-- Includes a file. -/
  | file (path : String)
  /-- Marks the second branch inside the body of a branch. -/
  | otherwise (body : List Instruction)

namespace Instruction

def opcode : Instruction → Opcode
  | .program _ => .program
  | .block _ => .block
  | .layer _ => .layer
  | .connect _ _ => .connect
  | .moduleDef _ _ _ _ => .moduleDef
  | .moduleCall _ _ => .moduleCall
  | .loop _ _ _ _ => .loop
  | .branch _ _ _ _ => .branch
  | .condition _ => .condition
  | .templateDef _ _ _ => .templateDef
  | .templateCall _ _ => .templateCall
  | .call _ _ => .call
  | .expand _ _ _ => .expand
  | .constant _ _ => .constant
  | .file _ => .file
  | .otherwise _ => .otherwise

/-- The ordered children of an instruction; a leaf has none. -/
def body : Instruction → List Instruction
  | .program body | .block body | .moduleDef _ _ _ body | .loop _ _ _ body | .branch _ _ body _
  | .templateDef _ _ body | .expand _ _ body | .otherwise body => body
  | .layer _ | .connect _ _ | .moduleCall _ _ | .condition _ | .templateCall _ _ | .call _ _
  | .constant _ _ | .file _ => []

def declaredName? : Instruction → Option String
  | .layer spec => some spec.name
  | .moduleDef name _ _ _ => some name
  | .templateDef name _ _ => some name
  | .branch name _ _ _ => name
  | _ => none

def isComposite (instruction : Instruction) : Bool :=
  !instruction.body.isEmpty

def isConditional : Instruction → Bool
  | .branch _ _ _ _ => true
  | _ => false

mutual

def nodeCount : Instruction → Nat
  | .program body | .block body | .moduleDef _ _ _ body | .loop _ _ _ body
  | .templateDef _ _ body | .expand _ _ body | .otherwise body => 1 + nodeCountAll body
  | .branch _ test body alternative =>
    1 + (nodeCount test + nodeCountAll alternative) + nodeCountAll body
  | .layer _ | .connect _ _ | .moduleCall _ _ | .condition _ | .templateCall _ _ | .call _ _
  | .constant _ _ | .file _ => 1

def nodeCountAll : List Instruction → Nat
  | [] => 0
  | first :: rest => nodeCount first + nodeCountAll rest

end

mutual

/-- Decides whether two instructions agree; dropout rates are compared as numbers. -/
def same : Instruction → Instruction → Bool
  | .program left, .program right => sameAll left right
  | .block left, .block right => sameAll left right
  | .layer left, .layer right => left.same right
  | .connect source target, .connect source' target' => source == source' && target == target'
  | .moduleDef name inputs outputs body, .moduleDef name' inputs' outputs' body' =>
    name == name' && inputs == inputs' && outputs == outputs' && sameAll body body'
  | .moduleCall name args, .moduleCall name' args' => name == name' && args == args'
  | .loop counter first last body, .loop counter' first' last' body' =>
    counter == counter' && first == first' && last == last' && sameAll body body'
  | .branch name test body alternative, .branch name' test' body' alternative' =>
    name == name' && same test test' && sameAll body body'
      && sameAll alternative alternative'
  | .condition text, .condition text' => text == text'
  | .templateDef name parameters body, .templateDef name' parameters' body' =>
    name == name' && parameters == parameters' && sameAll body body'
  | .templateCall name args, .templateCall name' args' => name == name' && args == args'
  | .call name args, .call name' args' => name == name' && args == args'
  | .expand group annotations body, .expand group' annotations' body' =>
    group == group' && annotations == annotations' && sameAll body body'
  | .constant name text, .constant name' text' => name == name' && text == text'
  | .file path, .file path' => path == path'
  | .otherwise left, .otherwise right => sameAll left right
  | _, _ => false

def sameAll : List Instruction → List Instruction → Bool
  | [], [] => true
  | left :: lefts, right :: rights => same left right && sameAll lefts rights
  | _, _ => false

end

end Instruction

end NetBlueprint
