import NetBlueprint.Compiler.State

/-!
Contract: layers out of layer declarations.

Integer fields are evaluated, names of activations are looked up, and each type of layer checks
the fields it needs. An input that exists somewhere in the network is shared by name; an input or
output that is visible in the current scope itself is not added twice.
-/

namespace NetBlueprint

namespace LayerSpec

def invalid (spec : LayerSpec) (detail : String) : CompileFault :=
  .invalidLayer spec.name detail

/-- The value of an integer field; a text may stand in brackets. -/
def integer : IntField → Except CompileFault Int
  | .literal value => .ok value
  | .expression text => (Expr.evaluate (unbracket text)).mapError .expression

def count (spec : LayerSpec) (field : String) : Option IntField → Except CompileFault (Option Nat)
  | none => .ok none
  | some value => do
    let number ← integer value
    if number < 0 then throw (spec.invalid s!"{field} must be non-negative, got {number}")
    return some number.toNat

def declaredShape (spec : LayerSpec) : Except CompileFault (Option Shape) :=
  match spec.shape with
  | none => .ok none
  | some dims => do return some ⟨← dims.mapM integer⟩

/-- The declared activation; without one a layer is linear. -/
def declaredActivation (spec : LayerSpec) : Except CompileFault Activation :=
  match spec.activation with
  | none => .ok .linear
  | some name =>
    match Activation.ofName? name with
    | some activation => .ok activation
    | none => .error (spec.invalid s!"unknown activation '{name}'")

/-- The declared dropout rate: the field, the parameter of that name, or one half. -/
def declaredRate (spec : LayerSpec) : Except CompileFault Float :=
  match spec.dropout with
  | some rate => .ok rate
  | none =>
    match spec.params.lookup "rate" with
    | none => .ok (Float.ofBits 0x3fe0000000000000)
    | some text =>
      match Decimal.readFloat? (Text.trimmed text.toList) with
      | some rate => .ok rate
      | none => .error (spec.invalid s!"dropout rate '{text}' is not a number")

/-- Decides whether a rate lies between zero and one, one excluded. -/
def isRate (rate : Float) : Bool :=
  Float.ofBits 0 ≤ rate && rate < Float.ofBits 0x3ff0000000000000

def dropoutKind (spec : LayerSpec) : Except CompileFault LayerKind := do
  let rate ← spec.declaredRate
  if !isRate rate then
    throw (spec.invalid s!"dropout rate {Decimal.plain rate} is outside [0, 1)")
  let training := (spec.params.lookup "training").any fun text => text.toLower == "true"
  return .dropout rate training (← spec.declaredShape)

def inputKind (spec : LayerSpec) : Except CompileFault LayerKind := do
  let size ← spec.count "size" spec.size
  let shape ← spec.declaredShape
  if size.isNone && shape.isNone then
    throw (spec.invalid "input layer needs a size or a shape")
  return .input size shape

def denseKind (spec : LayerSpec) : Except CompileFault LayerKind := do
  match ← spec.count "size" spec.size with
  | none => throw (spec.invalid "dense layer needs a size")
  | some units => return .dense ⟨units, ← spec.declaredActivation, none⟩

def reshapeKind (spec : LayerSpec) : Except CompileFault LayerKind := do
  match ← spec.declaredShape with
  | none => throw (spec.invalid "reshape layer needs a shape")
  | some shape => return .reshape shape

def activationKind (spec : LayerSpec) : Except CompileFault LayerKind := do
  if spec.activation.isNone then
    throw (spec.invalid "activation layer needs an activation")
  return .activation (← spec.declaredActivation) (← spec.declaredShape)

/-- The kind of a layer whose type is the name of an activation other than the linear one. -/
def shorthandKind (spec : LayerSpec) : Except CompileFault LayerKind :=
  match Activation.ofName? spec.kind with
  | none | some .linear => .error (.unknownLayerType spec.name spec.layerType)
  | some function => do return .activation function (← spec.declaredShape)

def layerKind (spec : LayerSpec) : Except CompileFault LayerKind :=
  match spec.kind with
  | "input" => spec.inputKind
  | "output" => do
    return .output (← spec.count "size" spec.size) (← spec.declaredShape)
      (← spec.declaredActivation)
  | "dense" => spec.denseKind
  | "conv" | "conv1d" | "conv2d" => do
    return .conv (← spec.count "size" spec.size) (← spec.declaredShape) spec.params
  | "dropout" => spec.dropoutKind
  | "attention" => do
    return .attention (← spec.count "heads" spec.heads) (← spec.count "dim" spec.dim)
  | "transformer" => do
    return .transformer (← spec.count "dim" spec.dim) (← spec.count "depth" spec.depth)
      (← spec.count "heads" spec.heads)
  | "reshape" => spec.reshapeKind
  | "norm" | "layernorm" | "layer_norm" | "batchnorm" | "batch_norm" => do
    return .norm (← spec.declaredShape)
  | "activation" => spec.activationKind
  | _ => spec.shorthandKind

end LayerSpec

namespace Compile

/-- Decides whether a layer is an input or an output just as it is declared. -/
def sameInterface (spec : LayerSpec) (layer : Layer) : Bool :=
  layer.kind.isInput == spec.isInput && layer.kind.isOutput == spec.isOutput

def newLayer (spec : LayerSpec) : CompileM Unit := do
  match spec.layerKind with
  | .error fault => throw fault
  | .ok kind =>
    let id ← addLayer spec.name kind
    log s!"LAYER {spec.kind} '{spec.name}' -> #{id}"

def layer (spec : LayerSpec) : CompileM Unit := do
  let name := spec.name
  if ← takeAhead name (.layer spec) then
    log s!"LAYER '{name}' already compiled lazily, skipping"
  else if (spec.isInput || spec.isOutput)
      && ((← get).inCurrentScope? name).any (sameInterface spec) then
    log s!"LAYER {spec.kind} '{name}' already in scope"
  else if spec.isInput then
    match (← get).globalInput? name with
    | some id =>
      modify fun state => state.registered name id
      log s!"LAYER input '{name}' reuses #{id}"
    | none => newLayer spec
  else newLayer spec

end Compile

end NetBlueprint
