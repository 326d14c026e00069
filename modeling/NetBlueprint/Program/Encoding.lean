import NetBlueprint.Json.Value
import NetBlueprint.Program.Instruction

/-!
Contract: instructions as JSON values.

An instruction becomes a record that starts with its label and goes on with its fields. Optional
fields without a value are left out, and so are the empty lists and tables of a layer, the empty
interface lists of a module, the empty second branch and the empty annotations.
-/

namespace NetBlueprint.Program

open NetBlueprint.Json (Value)

/-- The members of a record, some of which may be left out. -/
abbrev Members := List (String × Value)

def textList (texts : List String) : Value :=
  .list (texts.map .text)

def textRecord (table : TextTable) : Value :=
  .record (table.map fun entry => (entry.1, .text entry.2))

def given {Field : Type} (key : String) (write : Field → Value) : Option Field → Members
  | none => []
  | some field => [(key, write field)]

/-- A member that is left out when the list behind it is empty. -/
def unlessEmpty {Item : Type} (key : String) (write : List Item → Value) : List Item → Members
  | [] => []
  | items => [(key, write items)]

def intValue : IntField → Value
  | .literal value => .integer value
  | .expression text => .text text

def layerMembers (spec : LayerSpec) : Members :=
  [("type", .text spec.layerType), ("name", .text spec.name)]
    ++ given "size" intValue spec.size
    ++ given "shape" (fun dims => .list (dims.map intValue)) spec.shape
    ++ given "activation" .text spec.activation
    ++ given "dim" intValue spec.dim
    ++ given "depth" intValue spec.depth
    ++ given "heads" intValue spec.heads
    ++ given "dropout" .decimal spec.dropout
    ++ unlessEmpty "params" textRecord spec.params
    ++ unlessEmpty "tags" textList spec.tags
    ++ unlessEmpty "inputs" textList spec.inputs
    ++ unlessEmpty "outputs" textList spec.outputs
    ++ given "weights" .text spec.weights

def labelled (opcode : Opcode) (members : Members) : Value :=
  .record (("op", .text opcode.label) :: members)

mutual

def toValue : Instruction → Value
  | .program body => labelled .program [("body", .list (toValues body))]
  | .block body => labelled .block [("body", .list (toValues body))]
  | .layer spec => labelled .layer (layerMembers spec)
  | .connect source target =>
    labelled .connect [("from", .text source), ("to", .text target)]
  | .moduleDef name inputs outputs body =>
    labelled .moduleDef
      ([("name", .text name)] ++ unlessEmpty "inputs" textList inputs
        ++ unlessEmpty "outputs" textList outputs ++ [("body", .list (toValues body))])
  | .moduleCall name args =>
    labelled .moduleCall [("name", .text name), ("args", textList args)]
  | .loop counter first last body =>
    labelled .loop
      [("var", .text counter), ("fromVal", .text first), ("toVal", .text last),
        ("body", .list (toValues body))]
  | .branch name test body alternative =>
    labelled .branch
      (given "name" .text name ++ [("cond", toValue test), ("body", .list (toValues body))]
        ++ unlessEmpty "else" .list (toValues alternative))
  | .condition text => labelled .condition [("expr", .text text)]
  | .templateDef name parameters body =>
    labelled .templateDef
      [("name", .text name), ("params", textList parameters), ("body", .list (toValues body))]
  | .templateCall name args =>
    labelled .templateCall [("name", .text name), ("args", textList args)]
  | .call name args => labelled .call [("name", .text name), ("args", textList args)]
  | .expand group annotations body =>
    labelled .expand
      (given "group" .text group ++ unlessEmpty "meta" textRecord annotations
        ++ [("body", .list (toValues body))])
  | .constant name text => labelled .constant [("name", .text name), ("expr", .text text)]
  | .file path => labelled .file [("path", .text path)]
  | .otherwise body => labelled .otherwise [("body", .list (toValues body))]

def toValues : List Instruction → List Value
  | [] => []
  | first :: rest => toValue first :: toValues rest

end

end NetBlueprint.Program
