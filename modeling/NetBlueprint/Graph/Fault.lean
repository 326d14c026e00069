/-!
Contract: what can go wrong when a network is built or evaluated.
-/

namespace NetBlueprint

inductive GraphError where
  | unknownLayer (id : Nat)
  | missingInput (name : String)
  | unsupportedCondition (text reason : String)
  | indexOutOfRange (name : String) (index length : Nat)
  | shapeMismatch (layer : String) (expected actual : Nat)
  | invalidWeights (layer detail : String)
  | cycle (layer : String)
  | notExecutable (layer kind : String)
  /-- A module that contains itself has no value. -/
  | endlessNesting (id : Nat)
deriving DecidableEq, Repr

namespace GraphError

def kindName : GraphError → String
  | .unknownLayer _ => "UnknownLayer"
  | .missingInput _ => "MissingInput"
  | .unsupportedCondition _ _ => "UnsupportedCondition"
  | .indexOutOfRange _ _ _ => "IndexOutOfRange"
  | .shapeMismatch _ _ _ => "ShapeMismatch"
  | .invalidWeights _ _ => "InvalidWeights"
  | .cycle _ => "Cycle"
  | .notExecutable _ _ => "NotExecutable"
  | .endlessNesting _ => "EndlessNesting"

def message : GraphError → String
  | .unknownLayer id => s!"unknown layer id #{id}"
  | .missingInput name => s!"no input supplied for '{name}'"
  | .unsupportedCondition text reason => s!"unsupported condition '{text}': {reason}"
  | .indexOutOfRange name index length =>
    s!"index {index} out of range for input '{name}' of length {length}"
  | .shapeMismatch layer expected actual =>
    s!"layer '{layer}' expected {expected} input features, got {actual}"
  | .invalidWeights layer detail => s!"invalid weights for layer '{layer}': {detail}"
  | .cycle layer => s!"cycle through layer '{layer}' during forward evaluation"
  | .notExecutable layer kind => s!"layer '{layer}' ({kind}) cannot be executed"
  | .endlessNesting id => s!"module #{id} contains itself"

end GraphError

end NetBlueprint
