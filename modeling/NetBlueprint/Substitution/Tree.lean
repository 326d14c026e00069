import NetBlueprint.Program.Instruction
import NetBlueprint.Substitution.Basic

/-!
Contract: filling bound names into instruction trees.

Names of layers, modules and branches, endpoints, interface lists and arguments are filled in and
renamed; other texts are only filled in. The counter of a loop and the parameters of a template
shadow bindings inside their bodies. Keys of tables, counters, template names, constants' names
and file paths stay as they are. Fields are visited in their order and the first error is the
answer.
-/

namespace NetBlueprint.Substitution

def optional {Field : Type} (fill : Field → Except ExprError Field) :
    Option Field → Except ExprError (Option Field)
  | none => .ok none
  | some field => (fill field).map some

def intField (substitution : Substitution) : IntField → Except ExprError IntField
  | .literal value => .ok (.literal value)
  | .expression text => (substitution.substitute text).map .expression

def table (substitution : Substitution) : TextTable → Except ExprError TextTable
  | [] => .ok []
  | (key, text) :: rest => do
    let filled ← substitution.substitute text
    let others ← table substitution rest
    return (key, filled) :: others

def each {Field : Type} (fill : Field → Except ExprError Field) :
    List Field → Except ExprError (List Field)
  | [] => .ok []
  | first :: rest => do
    let filled ← fill first
    let others ← each fill rest
    return filled :: others

def names (substitution : Substitution) (texts : List String) : Except ExprError (List String) :=
  each substitution.name texts

def layerSpec (substitution : Substitution) (spec : LayerSpec) : Except ExprError LayerSpec := do
  let layerType ← substitution.substitute spec.layerType
  let name ← substitution.name spec.name
  let size ← optional substitution.intField spec.size
  let shape ← optional (each substitution.intField) spec.shape
  let activation ← optional substitution.substitute spec.activation
  let dim ← optional substitution.intField spec.dim
  let depth ← optional substitution.intField spec.depth
  let heads ← optional substitution.intField spec.heads
  let params ← substitution.table spec.params
  let tags ← each substitution.substitute spec.tags
  let inputs ← substitution.names spec.inputs
  let outputs ← substitution.names spec.outputs
  let weights ← optional substitution.substitute spec.weights
  return { layerType, name, size, shape, activation, dim, depth, heads, dropout := spec.dropout,
           params, tags, inputs, outputs, weights }

mutual

/-- Fills bindings into an instruction. -/
def apply : Substitution → Instruction → Except ExprError Instruction
  | substitution, .program body => do return .program (← applyAll substitution body)
  | substitution, .block body => do return .block (← applyAll substitution body)
  | substitution, .layer spec => do return .layer (← substitution.layerSpec spec)
  | substitution, .connect source target => do
    let source ← substitution.name source
    let target ← substitution.name target
    return .connect source target
  | substitution, .moduleDef name inputs outputs body => do
    let name ← substitution.name name
    let inputs ← substitution.names inputs
    let outputs ← substitution.names outputs
    let body ← applyAll substitution body
    return .moduleDef name inputs outputs body
  | substitution, .moduleCall name args => do
    let name ← substitution.substitute name
    let args ← substitution.names args
    return .moduleCall name args
  | substitution, .loop counter first last body => do
    let first ← substitution.substitute first
    let last ← substitution.substitute last
    let body ← applyAll (substitution.without [counter]) body
    return .loop counter first last body
  | substitution, .branch name test body alternative => do
    let name ← optional substitution.name name
    let test ← apply substitution test
    let body ← applyAll substitution body
    let alternative ← applyAll substitution alternative
    return .branch name test body alternative
  | substitution, .condition text => do return .condition (← substitution.substitute text)
  | substitution, .templateDef name parameters body => do
    return .templateDef name parameters (← applyAll (substitution.without parameters) body)
  | substitution, .templateCall name args => do
    let name ← substitution.substitute name
    let args ← substitution.names args
    return .templateCall name args
  | substitution, .call name args => do
    let name ← substitution.substitute name
    let args ← substitution.names args
    return .call name args
  | substitution, .expand group annotations body => do
    let group ← optional substitution.substitute group
    let annotations ← substitution.table annotations
    let body ← applyAll substitution body
    return .expand group annotations body
  | substitution, .constant name text => do
    return .constant name (← substitution.substitute text)
  | _, .file path => .ok (.file path)
  | substitution, .otherwise body => do return .otherwise (← applyAll substitution body)

def applyAll : Substitution → List Instruction → Except ExprError (List Instruction)
  | _, [] => .ok []
  | substitution, first :: rest => do
    let filled ← apply substitution first
    let others ← applyAll substitution rest
    return filled :: others

end

end NetBlueprint.Substitution
