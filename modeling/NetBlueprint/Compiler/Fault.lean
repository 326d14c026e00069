import NetBlueprint.Expr.Basic
import NetBlueprint.Graph.Condition
import NetBlueprint.Program.Instruction

/-!
Contract: why a compilation is given up.
-/

namespace NetBlueprint

inductive CompileFault where
  | unknownLayerType (layer layerType : String)
  | unsupportedOp (opcode : Opcode)
  | templateNotFound (name : String)
  | templateArity (name : String) (expected found : Nat)
  | nonNumericBound (counter value : String)
  | unsupportedCondition (text reason : String)
  | unsupportedIndexing (endpoint : String)
  | expression (error : ExprError)
  | invalidLayer (layer detail : String)
  /-- Templates that call each other without end. -/
  | endlessExpansion
  /-- Every suffix drawn is in use already. -/
  | suffixesExhausted (label : String)
deriving DecidableEq, Repr

namespace CompileFault

def kindName : CompileFault → String
  | .unknownLayerType _ _ => "UnknownLayerType"
  | .unsupportedOp _ => "UnsupportedOp"
  | .templateNotFound _ => "MacroNotFound"
  | .templateArity _ _ _ => "MacroArity"
  | .nonNumericBound _ _ => "NonNumericBound"
  | .unsupportedCondition _ _ => "UnsupportedCondition"
  | .unsupportedIndexing _ => "UnsupportedIndexing"
  | .expression _ => "Expression"
  | .invalidLayer _ _ => "InvalidLayer"
  | .endlessExpansion => "EndlessExpansion"
  | .suffixesExhausted _ => "SuffixesExhausted"

def message : CompileFault → String
  | .unknownLayerType layer layerType => s!"unknown layer type '{layerType}' for layer '{layer}'"
  | .unsupportedOp opcode => s!"unsupported operation {opcode.label}"
  | .templateNotFound name => s!"macro '{name}' is not defined"
  | .templateArity name expected found =>
    s!"macro '{name}' takes {expected} argument(s), {found} given"
  | .nonNumericBound counter value => s!"loop bound '{value}' of '{counter}' is not numeric"
  | .unsupportedCondition text reason => s!"unsupported condition '{text}': {reason}"
  | .unsupportedIndexing endpoint =>
    s!"unsupported indexing in CONNECT endpoint '{endpoint}'"
  | .expression error => s!"expression error: {error.message}"
  | .invalidLayer layer detail => s!"invalid layer '{layer}': {detail}"
  | .endlessExpansion => "expansion does not end"
  | .suffixesExhausted label => s!"no fresh suffix left for '{label}'"

end CompileFault

end NetBlueprint
