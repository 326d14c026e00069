import NetBlueprint.Graph.Condition
import NetBlueprint.Graph.Network

/-!
Contract: evaluating a network on named input vectors.

A layer pulls its producers first, and the value of a layer is remembered. A conditional evaluates
the branch it selects and no other. The state of an evaluation is kept on a fault: weights of dense
layers that were created on the way stay, and so do remembered values. Recursion is bounded by a
depth that only a module containing itself can exhaust.

Limit: vectors are lists of any length. An allocated vector holds at most 2^63 - 1 bytes, so fewer
than 2^61 numbers of 32 bits. An output that asks for a greater width is given it here, where the
allocation would stop the process; no fault stands for that, as none does for memory that runs out.
-/

namespace NetBlueprint

/-- How a module feeds its children: each with the module's own input, or each with the result of
the child before it. -/
inductive ModuleMode where
  | parallel
  | chained
deriving DecidableEq, Repr, Inhabited

namespace ModuleMode

def name : ModuleMode → String
  | .parallel => "parallel"
  | .chained => "chained"

def ofName? (text : String) : Option ModuleMode :=
  match text.toLower with
  | "parallel" | "fanout" | "fan-out" => some .parallel
  | "chained" | "chain" | "sequential" => some .chained
  | _ => none

end ModuleMode

/-- What an evaluation reads and never changes. -/
structure Feed where
  inputs : List (String × Vector32)
  mode : ModuleMode

/-- What an evaluation changes: the weights inside the network, remembered values, and the layers
whose values are being computed. -/
structure EvalState where
  network : Network
  cache : List (LayerId × Vector32)
  active : List LayerId

/-- A computation that may fail and keeps its state when it does. -/
abbrev EvalM := ExceptT GraphError (StateM EvalState)

namespace EvalState

def start (network : Network) : EvalState :=
  ⟨network, [], []⟩

def enter (state : EvalState) (id : LayerId) : EvalState :=
  { state with active := id :: state.active }

def leave (state : EvalState) (id : LayerId) : EvalState :=
  { state with active := state.active.erase id }

def remember (state : EvalState) (id : LayerId) (value : Vector32) : EvalState :=
  { state with cache := (id, value) :: state.cache }

/-- Keeps the weights a dense layer uses from now on. -/
def keepWeights (state : EvalState) (id : LayerId) (layer : Dense) (width : Nat) : EvalState :=
  { state with
    network := state.network.setKind id
      (.dense { layer with weights := some (layer.weightsFor width) }) }

end EvalState

namespace Evaluation

def layer (id : LayerId) : EvalM Layer := do
  match (← get).network.layer? id with
  | some found => return found
  | none => throw (.unknownLayer id)

def external (feed : Feed) (name : String) : EvalM Vector32 :=
  match feed.inputs.lookup name with
  | some value => return value
  | none => throw (.missingInput name)

/-- Computes the value of a layer while it is marked, and remembers the value. -/
def marked (id : LayerId) (computation : EvalM Vector32) : EvalM Vector32 := fun state =>
  match computation (state.enter id) with
  | (.ok value, after) => (.ok value, (after.leave id).remember id value)
  | (.error error, after) => (.error error, after.leave id)

/-- Looks a value up or computes it; a layer that is being computed closes a cycle. -/
def visit (id : LayerId) (computation : Layer → EvalM Vector32) : EvalM Vector32 := do
  match (← get).cache.lookup id with
  | some value => return value
  | none =>
    let found ← layer id
    if (← get).active.contains id then throw (.cycle found.name)
    else marked id (computation found)

/-- Concatenates the values of some layers. -/
def gather (value : LayerId → EvalM Vector32) : List LayerId → EvalM Vector32
  | [] => return []
  | first :: rest => do
    let head ← value first
    let tail ← gather value rest
    return head ++ tail

/-- Feeds the children of a module one after the other; the last result is the module's. -/
def runChildren (feed : Feed) (apply : LayerId → Vector32 → EvalM Vector32) (input : Vector32) :
    Vector32 → List LayerId → EvalM Vector32
  | last, [] => return last
  | last, child :: rest => do
    let next ← apply child (match feed.mode with
      | .parallel => input
      | .chained => last)
    runChildren feed apply input next rest

/-- Cuts a vector to a length or fills it up with zeros, however long it gets. -/
def resize (length : Nat) (values : Vector32) : Vector32 :=
  values.take length ++ List.replicate (length - values.length) Activation.zero32

/-- A resized vector has the length asked for. -/
theorem length_resize (length : Nat) (values : Vector32) :
    (resize length values).length = length := by
  simp only [resize, List.length_append, List.length_take, List.length_replicate]
  omega

/-- The width of an output: the element count of its shape, its size, or the width of its
input. -/
def outputWidth (size : Option Nat) (shape : Option Shape) (width : Nat) : Nat :=
  (((shape.bind Shape.elements?).map Int.toNat).or size).getD width

/-- Applies a dense layer; its weights are kept before the width is checked. -/
def applyDense (id : LayerId) (name : String) (dense : Dense) (input : Vector32) :
    EvalM Vector32 := do
  modify fun state => state.keepWeights id dense input.length
  match dense.forward name input with
  | .ok value => return value
  | .error error => throw error

def applyDropout (rate : Float) (training : Bool) (input : Vector32) : Vector32 :=
  let one := Float.ofBits 0x3ff0000000000000
  if training && rate < one then
    let scale := (one / (one - rate)).toFloat32
    input.map (· * scale)
  else input

/-- Applies the function of a layer to an explicit input; `value` and `apply` evaluate and apply
other layers. -/
def applyLayer (feed : Feed) (value : LayerId → EvalM Vector32)
    (apply : LayerId → Vector32 → EvalM Vector32) (found : Layer) (input : Vector32) :
    EvalM Vector32 :=
  match found.kind with
  | .input _ _ => external feed found.name
  | .output size shape function =>
    return function.apply (resize (outputWidth size shape input.length) input)
  | .dense dense => applyDense found.id found.name dense input
  | .dropout rate training _ => return applyDropout rate training input
  | .activation function _ => return function.apply input
  | .conv _ _ _ | .attention _ _ | .transformer _ _ _ | .reshape _ | .norm _ => return input
  | .conditional _ _ _ => value found.id
  | .composite children => runChildren feed apply input input children
  | .test _ _ _ | .repetition _ _ _ _ | .template _ =>
    throw (.notExecutable found.name found.kind.name)

def selectRoot (feed : Feed) (condition : String) (thenRoot elseRoot : Option LayerId) :
    EvalM (Option LayerId) :=
  match Condition.parse condition with
  | .error error => throw error
  | .ok parsed =>
    match parsed.evaluate feed.inputs with
    | .error error => throw error
    | .ok holds => return if holds then thenRoot else elseRoot

def compute (feed : Feed) (value : LayerId → EvalM Vector32)
    (apply : LayerId → Vector32 → EvalM Vector32) (found : Layer) : EvalM Vector32 :=
  match found.kind with
  | .input _ _ => external feed found.name
  | .conditional condition thenRoot elseRoot => do
    match ← selectRoot feed condition thenRoot elseRoot with
    | some root => value root
    | none => external feed found.name
  | _ => do
    let input ← gather value found.inputs
    apply found.id input

mutual

def valueWithin (feed : Feed) : Nat → LayerId → EvalM Vector32
  | 0, id => throw (.endlessNesting id)
  | depth + 1, id => visit id (compute feed (valueWithin feed depth) (applyWithin feed depth))

/-- The result of a layer's own function on an explicit input. -/
def applyWithin (feed : Feed) : Nat → LayerId → Vector32 → EvalM Vector32
  | 0, id, _ => throw (.endlessNesting id)
  | depth + 1, id, input => do
    let found ← layer id
    applyLayer feed (valueWithin feed depth) (applyWithin feed depth) found input

end

/-- A depth that is enough unless a module contains itself: between two layers being computed
stand at most as many modules as there are layers. -/
def depthFor (network : Network) : Nat :=
  2 * (network.size + 2) * (network.size + 2)

def value (feed : Feed) (id : LayerId) : EvalM Vector32 := do
  valueWithin feed (depthFor (← get).network) id

/-- The values of some layers by name; of two layers with one name the later counts. -/
def valuesByName (feed : Feed) :
    List (String × Vector32) → List LayerId → EvalM (List (String × Vector32))
  | done, [] => return done
  | done, id :: rest => do
    let result ← value feed id
    let name := (← get).network.nameOf id
    valuesByName feed (Text.insertSorted name result done) rest

end Evaluation

namespace Network

/-- Evaluates every forward root. The network returned holds the weights that were created. -/
def forward (network : Network) (feed : Feed) :
    Except GraphError (List (String × Vector32)) × Network :=
  let (result, state) :=
    (Evaluation.valuesByName feed [] network.forwardRoots).run (EvalState.start network)
  (result, state.network)

end Network

end NetBlueprint
