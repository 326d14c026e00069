import NetBlueprint.Analysis.Shapes

/-!
Contract: validating a compiled network.

Validation has three levels: none, the cycle check, and the cycle check followed by the shape
analysis. The first check that fails is the answer.
-/

namespace NetBlueprint

/-- How much of a network is checked. -/
inductive ValidationLevel where
  | none
  | structural
  | shapes
deriving DecidableEq, Repr, Inhabited

namespace ValidationLevel

def name : ValidationLevel → String
  | .none => "none"
  | .structural => "structural"
  | .shapes => "shapes"

def ofName? (text : String) : Option ValidationLevel :=
  match text.toLower with
  | "none" | "off" => some .none
  | "structural" | "cycles" => some .structural
  | "shapes" | "shape" | "full" => some .shapes
  | _ => Option.none

end ValidationLevel

inductive InvalidNetwork where
  | cycle (nodes : List String)
  | shape (errors : List String)
deriving DecidableEq, Repr

def InvalidNetwork.message : InvalidNetwork → String
  | .cycle nodes => "graph contains cycle: " ++ String.intercalate " -> " nodes
  | .shape errors => "shape validation failed: " ++ String.intercalate "; " errors

namespace Network

def checkCycles (network : Network) : Except InvalidNetwork Unit :=
  match network.findCycle with
  | none => .ok ()
  | some cycle => .error (.cycle (cycle.map network.nameOf))

def checkShapes (network : Network) (options : ShapeOptions) : Except InvalidNetwork Unit :=
  let report := network.analyze options
  if report.isValid then .ok () else .error (.shape report.errors)

/-- Checks a network at a given level. -/
def validate (network : Network) (options : ShapeOptions) :
    ValidationLevel → Except InvalidNetwork Unit
  | .none => .ok ()
  | .structural => network.checkCycles
  | .shapes =>
    match network.checkCycles with
    | .error invalid => .error invalid
    | .ok () => network.checkShapes options

end Network

end NetBlueprint
