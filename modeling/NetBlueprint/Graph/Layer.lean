import NetBlueprint.Decimal.Layout
import NetBlueprint.Graph.Activation
import NetBlueprint.Graph.Fault
import NetBlueprint.Graph.Shape
import NetBlueprint.Program.Instruction
import NetBlueprint.Text.Order

/-!
Contract: the layers of a network.

A layer has a number, a name that need not be unique, a kind with its own data, and the numbers of
the layers it is connected to on either side. The second half describes layers to whoever checks
or shows them: parameters as texts, the shape that follows from the declaration alone, and the
shape a layer declares to accept or produce.

Limit: a matrix of weights is a list of any length. Its size, units times input features, is counted
without bound, and zeros are made for it beyond the 2^63 - 1 bytes that an allocated vector holds at
most. Such weights fit no memory.
-/

namespace NetBlueprint

/-- The position of a layer in its network. -/
abbrev LayerId := Nat

/-- Weights of a dense layer: one row of `inFeatures` factors for each unit, row after row, and
one bias for each unit. -/
structure DenseWeights where
  inFeatures : Nat
  matrix : Vector32
  bias : Vector32

/-- Weights that are all zero. Neither the size of the matrix nor its bytes are limited. -/
def DenseWeights.zeros (units inFeatures : Nat) : DenseWeights :=
  ⟨inFeatures, List.replicate (units * inFeatures) Activation.zero32,
    List.replicate units Activation.zero32⟩

/-- A fully connected layer. Its weights are created when it first sees an input, because its
width is not known before. -/
structure Dense where
  units : Nat
  activation : Activation
  weights : Option DenseWeights

/-- What a layer is. `test`, `repetition` and `template` describe instructions that have not been
unrolled; they cannot be evaluated. -/
inductive LayerKind where
  | input (size : Option Nat) (shape : Option Shape)
  | output (size : Option Nat) (shape : Option Shape) (activation : Activation)
  | dense (layer : Dense)
  | conv (filters : Option Nat) (shape : Option Shape) (params : TextTable)
  | dropout (rate : Float) (training : Bool) (shape : Option Shape)
  | attention (heads dim : Option Nat)
  | transformer (dim depth heads : Option Nat)
  | reshape (shape : Shape)
  | norm (shape : Option Shape)
  | activation (function : Activation) (shape : Option Shape)
  | conditional (condition : String) (thenRoot elseRoot : Option LayerId)
  | test (condition : String) (thenBody elseBody : Option LayerId)
  | repetition (counter : String) (first last : Int) (body : Option LayerId)
  | composite (children : List LayerId)
  | template (parameters : List String)

namespace LayerKind

def name : LayerKind → String
  | .input _ _ => "input"
  | .output _ _ _ => "output"
  | .dense _ => "dense"
  | .conv _ _ _ => "conv"
  | .dropout _ _ _ => "dropout"
  | .attention _ _ => "attention"
  | .transformer _ _ _ => "transformer"
  | .reshape _ => "reshape"
  | .norm _ => "norm"
  | .activation _ _ => "activation"
  | .conditional _ _ _ => "conditional"
  | .test _ _ _ => "if"
  | .repetition _ _ _ _ => "for"
  | .composite _ => "module"
  | .template _ => "macro"

def isInput : LayerKind → Bool
  | .input _ _ => true
  | _ => false

def isOutput : LayerKind → Bool
  | .output _ _ _ => true
  | _ => false

/-- Decides whether a layer chooses between branches. -/
def isConditional : LayerKind → Bool
  | .conditional _ _ _ => true
  | _ => false

/-- Decides whether a layer produces the shape it receives. -/
def keepsShape : LayerKind → Bool
  | .dropout _ _ _ | .norm _ | .activation _ _ => true
  | _ => false

/-- The layers a conditional chooses from. -/
def roots : LayerKind → List LayerId
  | .conditional _ thenRoot elseRoot => thenRoot.toList ++ elseRoot.toList
  | _ => []

def dense? : LayerKind → Option Dense
  | .dense layer => some layer
  | _ => none

end LayerKind

structure Layer where
  id : LayerId
  name : String
  kind : LayerKind
  inputs : List LayerId
  outputs : List LayerId

namespace Layer

def summary (layer : Layer) : String :=
  s!"[{layer.id}] {layer.name} ({layer.kind.name}) | {layer.inputs.length} in, "
    ++ s!"{layer.outputs.length} out"

end Layer

namespace Dense

/-- The name of a dense layer inside messages about its weights. -/
def label (layer : Dense) : String :=
  s!"dense({layer.units})"

/-- Installs weights. They have to fit the units, and nothing may be installed already. -/
def install (layer : Dense) (weights : DenseWeights) : Except GraphError Dense :=
  if weights.bias.length != layer.units then
    .error (.invalidWeights layer.label
      s!"bias has {weights.bias.length} entries, expected {layer.units}")
  else if weights.matrix.length != layer.units * weights.inFeatures then
    .error (.invalidWeights layer.label
      s!"matrix has {weights.matrix.length} entries, expected {layer.units * weights.inFeatures}")
  else if layer.weights.isSome then
    .error (.invalidWeights layer.label "weights already initialised")
  else .ok { layer with weights := some weights }

/-- The weights used for an input of a given width: those present, or zeros. -/
def weightsFor (layer : Dense) (width : Nat) : DenseWeights :=
  layer.weights.getD (DenseWeights.zeros layer.units width)

def dot (row input : Vector32) : Float32 :=
  (List.zipWith (· * ·) row input).foldl (· + ·) Activation.zero32

/-- Cuts rows of `width` factors off a matrix and adds the bias of each unit. -/
def rows (width : Nat) (input : Vector32) : Vector32 → Vector32 → Vector32
  | _, [] => []
  | [], _ :: _ => []
  | first :: matrix, bias :: biases =>
    (dot ((first :: matrix).take width) input + bias)
      :: rows width input ((first :: matrix).drop width) biases

/-- Multiplies by the weights, adds the biases and applies the activation. Without input features
the biases alone remain. -/
def forward (layer : Dense) (name : String) (input : Vector32) : Except GraphError Vector32 :=
  let weights := layer.weightsFor input.length
  if weights.inFeatures != input.length then
    .error (.shapeMismatch name weights.inFeatures input.length)
  else
    let products := rows (max weights.inFeatures 1) input weights.matrix
      (weights.bias.take layer.units)
    .ok (layer.activation.apply
      (if products.length < layer.units then weights.bias else products))

end Dense

/-! ## Description -/

def parameter {Value : Type} (key : String) (render : Value → String) : Option Value → TextTable
  | none => []
  | some value => [(key, render value)]

/-- The shape of a declaration: the shape itself, or a vector of the size. -/
def sized (size : Option Nat) (shape : Option Shape) : Option Shape :=
  shape.or (size.map Shape.vector)

namespace LayerKind

def parameterList : LayerKind → TextTable
  | .input size shape =>
    parameter "size" toString size ++ parameter "shape" Shape.render shape
  | .output size shape function =>
    parameter "size" toString size ++ parameter "shape" Shape.render shape
      ++ [("activation", function.name)]
  | .dense layer => [("size", toString layer.units), ("activation", layer.activation.name)]
  | .conv filters shape params =>
    parameter "size" toString filters ++ parameter "shape" Shape.render shape ++ params
  | .dropout rate training _ =>
    [("rate", Decimal.plain rate), ("training", if training then "true" else "false")]
  | .attention heads dim => parameter "heads" toString heads ++ parameter "dim" toString dim
  | .transformer dim depth heads =>
    parameter "dim" toString dim ++ parameter "depth" toString depth
      ++ parameter "heads" toString heads
  | .reshape shape => [("shape", shape.render)]
  | .norm shape => parameter "shape" Shape.render shape
  | .activation function _ => [("activation", function.name)]
  | .conditional condition _ _ => [("condition", condition)]
  | .test condition _ _ => [("condition", condition)]
  | .repetition counter first last _ =>
    [("var", counter), ("from", toString first), ("to", toString last)]
  | .composite children => [("children", toString children.length)]
  | .template parameters => [("params", String.intercalate "," parameters)]

/-- The parameters of a layer as texts, in the order of their keys. -/
def parameters (kind : LayerKind) : TextTable :=
  Text.sortedTable kind.parameterList

/-- The output shape that follows from the declaration alone. -/
def intrinsicShape : LayerKind → Option Shape
  | .input size shape => sized size shape
  | .reshape shape => some shape
  | _ => none

/-- The shape that a layer declares to accept or to produce. -/
def declaredShape : LayerKind → Option Shape
  | .input size shape => sized size shape
  | .output size shape _ => sized size shape
  | .reshape shape => some shape
  | .dropout _ _ shape | .norm shape | .activation _ shape => shape
  | _ => none

end LayerKind

end NetBlueprint
