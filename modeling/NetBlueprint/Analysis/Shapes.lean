import NetBlueprint.Analysis.Order

/-!
Contract: shape inference and its report.

Shapes start from what inputs and reshapes declare and are propagated in the layer order, pass
after pass, until a pass changes nothing or the passes are used up. Afterwards the declarations of
shape-keeping layers are compared with what their producers deliver, and every shape is tried as
an allocation. The analysis never changes the network and never fails.
-/

namespace NetBlueprint

/-- How an output relates to the shape that arrives: it has to match the declaration, or it is
projected onto it. -/
inductive OutputContract where
  | thin
  | thick
deriving DecidableEq, Repr, Inhabited

namespace OutputContract

def name : OutputContract → String
  | .thin => "thin"
  | .thick => "thick"

def ofName? (text : String) : Option OutputContract :=
  match text.toLower with
  | "thin" => some .thin
  | "thick" => some .thick
  | _ => none

end OutputContract

structure ShapeOptions where
  maxPasses : Nat
  contract : OutputContract
deriving DecidableEq, Repr

def ShapeOptions.standard : ShapeOptions := ⟨8, .thick⟩

/-- One optional shape for each layer. -/
abbrev ShapeTable := Array (Option Shape)

def ShapeTable.known (shapes : ShapeTable) (id : LayerId) : Option Shape :=
  (shapes[id]?).join

structure ShapeReport where
  shapes : ShapeTable
  order : List LayerId
  passes : Nat
  errors : List String
  warnings : List String

namespace ShapeReport

def isValid (report : ShapeReport) : Bool :=
  report.errors.isEmpty

def summary (report : ShapeReport) : String :=
  let known := (report.shapes.toList.filter Option.isSome).length
  s!"{known}/{report.shapes.size} shapes inferred in {report.passes} pass(es), "
    ++ s!"{report.errors.length} error(s), {report.warnings.length} warning(s)"

end ShapeReport

namespace Layer

/-- The first known shape among the producers of a layer. -/
def incoming (shapes : ShapeTable) (layer : Layer) : Option Shape :=
  layer.inputs.findSome? shapes.known

/-- The shape that the kind of a layer makes of the shapes of other layers. -/
def inferShape (shapes : ShapeTable) (layer : Layer) : Option Shape :=
  match layer.kind with
  | .input _ _ | .reshape _ => layer.kind.intrinsicShape
  | .output _ _ _ => layer.kind.declaredShape.or (layer.incoming shapes)
  | .dense dense =>
    if Text.maxSigned < dense.units then none
    else if layer.inputs.isEmpty then some (Shape.vector dense.units)
    else (layer.incoming shapes).map fun shape => shape.withLastDim dense.units
  | .dropout _ _ _ | .norm _ | .activation _ _ =>
    (layer.incoming shapes).or layer.kind.declaredShape
  | .conditional _ thenRoot elseRoot =>
    (thenRoot.bind shapes.known).or (elseRoot.bind shapes.known)
  | .composite children => children.getLast?.bind shapes.known
  | .test _ _ _ | .repetition _ _ _ _ | .template _ => none
  | .conv _ _ _ | .attention _ _ | .transformer _ _ _ => layer.incoming shapes

/-- The arriving and the declared shape of an output that the thin contract finds at odds. -/
def thinMismatch? (contract : OutputContract) (shapes : ShapeTable) (layer : Layer) :
    Option (Shape × Shape) :=
  if contract = .thin && layer.kind.isOutput then
    match layer.kind.declaredShape, layer.incoming shapes with
    | some declared, some arriving =>
      if arriving.compatible declared then none else some (arriving, declared)
    | _, _ => none
  else none

end Layer

structure Propagation where
  shapes : ShapeTable
  errors : List String
  flagged : List LayerId
  changed : Bool

namespace Propagation

/-- Records a mismatch of an output, once for each output. -/
def flag (contract : OutputContract) (state : Propagation) (layer : Layer) : Propagation :=
  match layer.thinMismatch? contract state.shapes with
  | none => state
  | some (arriving, declared) =>
    if state.flagged.contains layer.id then state
    else
      { state with
        flagged := layer.id :: state.flagged
        errors := state.errors ++
          [s!"output '{layer.name}' receives {arriving.render} but declares {declared.render}"] }

def store (state : Propagation) (layer : Layer) : Propagation :=
  match layer.inferShape state.shapes with
  | none => state
  | some shape =>
    if state.shapes.known layer.id = some shape then state
    else
      { state with
        shapes := state.shapes.setIfInBounds layer.id (some shape)
        changed := true }

def visit (network : Network) (contract : OutputContract) (state : Propagation) (id : LayerId) :
    Propagation :=
  match network.layer? id with
  | none => state
  | some layer => (state.flag contract layer).store layer

/-- Infers the shapes of all layers once, in a given order. -/
def pass (network : Network) (contract : OutputContract) (order : List LayerId)
    (state : Propagation) : Propagation :=
  order.foldl (visit network contract) { state with changed := false }

/-- Repeats passes until one changes nothing; returns their number too. -/
def run (network : Network) (contract : OutputContract) (order : List LayerId) :
    Nat → Propagation → Propagation × Nat
  | 0, state => (state, 0)
  | budget + 1, state =>
    let after := pass network contract order state
    if after.changed then
      let (final, passes) := run network contract order budget after
      (final, passes + 1)
    else (after, 1)

end Propagation

namespace Network

/-- The shapes that follow from declarations alone. -/
def declaredShapes (network : Network) : ShapeTable :=
  network.layers.map fun layer => layer.kind.intrinsicShape

/-- The messages about a shape-keeping layer that declares another shape than it receives. -/
def edgeErrorsOf (network : Network) (shapes : ShapeTable) (layer : Layer) : List String :=
  if layer.kind.keepsShape then
    match layer.kind.declaredShape with
    | none => []
    | some declared =>
      layer.inputs.filterMap fun producer =>
        match shapes.known producer with
        | none => none
        | some actual =>
          if actual.compatible declared then none
          else
            some (s!"{layer.kind.name} '{layer.name}' declares {declared.render} but "
              ++ s!"'{network.nameOf producer}' produces {actual.render}")
  else []

def allocationError? (shapes : ShapeTable) (layer : Layer) : Option String :=
  match shapes.known layer.id with
  | none => none
  | some shape =>
    match shape.elements? with
    | some count =>
      if 0 < count then none
      else some s!"dry-run: {layer.kind.name} '{layer.name}' cannot allocate {shape.render}"
    | none => some s!"dry-run: {layer.kind.name} '{layer.name}' cannot allocate {shape.render}"

def shapeWarning? (shapes : ShapeTable) (layer : Layer) : Option String :=
  match shapes.known layer.id with
  | some _ => none
  | none =>
    match layer.kind with
    | .test _ _ _ | .repetition _ _ _ _ | .template _ =>
      some s!"{layer.kind.name} descriptor '{layer.name}' has no shape"
    | _ => some s!"shape of {layer.kind.name} '{layer.name}' is unknown"

/-- The message about layers that a cycle keeps out of the order. -/
def orderWarnings (network : Network) : List String :=
  if network.readyOrder.length = network.size then []
  else
    [s!"topological order covers {network.readyOrder.length} of {network.size} layers; "
      ++ "cyclic remainder appended"]

/-- Infers the shapes of a network and checks them. -/
def analyze (network : Network) (options : ShapeOptions) : ShapeReport :=
  let order := network.layerOrder
  let (final, passes) :=
    Propagation.run network options.contract order options.maxPasses
      ⟨network.declaredShapes, [], [], false⟩
  let layers := network.layers.toList
  { shapes := final.shapes
    order
    passes
    errors :=
      final.errors ++ layers.flatMap (network.edgeErrorsOf final.shapes)
        ++ layers.filterMap (allocationError? final.shapes)
    warnings := network.orderWarnings ++ layers.filterMap (shapeWarning? final.shapes) }

end Network

end NetBlueprint
