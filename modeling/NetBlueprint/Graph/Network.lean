import NetBlueprint.Graph.Layer

/-!
Contract: networks, the graphs of layers that programs compile to.

A network owns its layers in the order they were added, together with the templates, annotations
and issues gathered on the way. An edge is stored at both of its ends. Names may repeat; a search
by name finds the first.
-/

namespace NetBlueprint

inductive Severity where
  | warning
  | error
deriving DecidableEq, Repr

def Severity.label : Severity → String
  | .warning => "WARNING"
  | .error => "ERROR"

/-- A problem that did not stop the compilation. -/
structure Issue where
  severity : Severity
  message : String
deriving DecidableEq, Repr

def Issue.render (issue : Issue) : String :=
  s!"[{issue.severity.label}] {issue.message}"

structure Network where
  name : String
  layers : Array Layer
  templates : List (String × Instruction)
  annotations : TextTable
  issues : List Issue

namespace Network

def empty (name : String) : Network :=
  ⟨name, #[], [], [], []⟩

/-- Appends a layer; its number is the count of the layers before it. -/
def addLayer (network : Network) (name : String) (kind : LayerKind) : Network :=
  { network with layers := network.layers.push ⟨network.layers.size, name, kind, [], []⟩ }

def size (network : Network) : Nat :=
  network.layers.size

def layer? (network : Network) (id : LayerId) : Option Layer :=
  network.layers[id]?

/-- The name of a layer; empty for a number out of range. -/
def nameOf (network : Network) (id : LayerId) : String :=
  match network.layer? id with
  | some layer => layer.name
  | none => ""

def find? (network : Network) (name : String) : Option Layer :=
  network.layers.find? fun layer => layer.name == name

def findId? (network : Network) (name : String) : Option LayerId :=
  (network.find? name).map Layer.id

def findAll (network : Network) (name : String) : List Layer :=
  network.layers.toList.filter fun layer => layer.name == name

def names (network : Network) : List String :=
  network.layers.toList.map Layer.name

def setKind (network : Network) (id : LayerId) (kind : LayerKind) : Network :=
  { network with layers := network.layers.modify id fun layer => { layer with kind } }

theorem size_addLayer (network : Network) (name : String) (kind : LayerKind) :
    (network.addLayer name kind).size = network.size + 1 := by
  simp [addLayer, size]

/-- A layer is found under its number as soon as it is added. -/
theorem layer?_addLayer_size (network : Network) (name : String) (kind : LayerKind) :
    (network.addLayer name kind).layer? network.size = some ⟨network.size, name, kind, [], []⟩ := by
  simp [addLayer, layer?, size]

/-- Adding a layer leaves the layers before it as they are. -/
theorem layer?_addLayer_of_lt (network : Network) (name : String) (kind : LayerKind)
    {id : LayerId} (earlier : id < network.size) :
    (network.addLayer name kind).layer? id = network.layer? id := by
  simp only [addLayer, layer?]
  exact (Array.getElem?_push_lt earlier).trans (Array.getElem?_eq_getElem earlier).symm

theorem size_setKind (network : Network) (id : LayerId) (kind : LayerKind) :
    (network.setKind id kind).size = network.size := by
  simp [setKind, size]

/-! ## Edges -/

/-- Stores an edge at both of its ends. -/
def addEdge (network : Network) (source target : LayerId) : Network :=
  { network with
    layers :=
      (network.layers.modify source fun layer =>
        { layer with outputs := layer.outputs ++ [target] }).modify target fun layer =>
        { layer with inputs := layer.inputs ++ [source] } }

/-- Decides whether an edge is stored at its source. -/
def hasEdge (network : Network) (source target : LayerId) : Bool :=
  match network.layer? source with
  | some layer => layer.outputs.contains target
  | none => false

/-- Adds an edge; the flag says whether it is new. -/
def connect (network : Network) (source target : LayerId) : Except GraphError (Bool × Network) :=
  if network.size ≤ source then .error (.unknownLayer source)
  else if network.size ≤ target then .error (.unknownLayer target)
  else if network.hasEdge source target then .ok (false, network)
  else .ok (true, network.addEdge source target)

theorem size_addEdge (network : Network) (source target : LayerId) :
    (network.addEdge source target).size = network.size := by
  simp [addEdge, size]

/-- Connecting layers adds none. -/
theorem size_of_connect {network after : Network} {source target : LayerId} {isNew : Bool}
    (connected : network.connect source target = .ok (isNew, after)) :
    after.size = network.size := by
  unfold connect at connected
  split at connected
  · cases connected
  · split at connected
    · cases connected
    · split at connected
      · cases connected
        rfl
      · cases connected
        exact size_addEdge network source target

def edgeCount (network : Network) : Nat :=
  network.layers.toList.foldr (fun layer count => layer.outputs.length + count) 0

/-- The edges as pairs of names, by source. -/
def edges (network : Network) : List (String × String) :=
  network.layers.toList.flatMap fun layer =>
    layer.outputs.map fun target => (layer.name, network.nameOf target)

/-! ## Inputs, outputs and roots -/

def firstOfNames : List String → List Layer → List Layer
  | _, [] => []
  | seen, layer :: rest =>
    if seen.contains layer.name then firstOfNames seen rest
    else layer :: firstOfNames (layer.name :: seen) rest

/-- The input layers; of several with one name the first. -/
def inputLayers (network : Network) : List LayerId :=
  (firstOfNames [] (network.layers.toList.filter fun layer => layer.kind.isInput)).map Layer.id

/-- Layers met while outputs are gathered, and the outputs among them, the last first. -/
structure Gathered where
  seen : List LayerId
  found : List LayerId
deriving DecidableEq, Repr

/-- Gathers the outputs that a layer leads to: itself, or those behind the branches of a
conditional. Every conditional is entered once, so the number of layers bounds the depth. -/
def gatherOutputs (network : Network) : Nat → Gathered → LayerId → Gathered
  | 0, gathered, _ => gathered
  | depth + 1, gathered, id =>
    match network.layer? id with
    | none => gathered
    | some layer =>
      if gathered.seen.contains id then gathered
      else if layer.kind.isOutput then ⟨id :: gathered.seen, id :: gathered.found⟩
      else if layer.kind.isConditional then
        layer.kind.roots.foldl (gatherOutputs network depth)
          ⟨id :: gathered.seen, gathered.found⟩
      else gathered

/-- The output layers, those behind a conditional in its place. -/
def outputLayers (network : Network) : List LayerId :=
  ((List.range network.size).foldl (network.gatherOutputs (network.size + 1)) ⟨[], []⟩).found
    |>.reverse

/-- Every layer that some conditional chooses. -/
def branchRoots (network : Network) : List LayerId :=
  network.layers.toList.flatMap fun layer => layer.kind.roots

/-- The layers that an evaluation starts from: outputs and conditionals that no conditional
chooses. -/
def forwardRoots (network : Network) : List LayerId :=
  let chosen := network.branchRoots
  (network.layers.toList.filter fun layer =>
    (layer.kind.isOutput || layer.kind.isConditional) && !chosen.contains layer.id).map Layer.id

/-! ## Templates, annotations and issues -/

/-- Registers a template; an earlier one of the same name is replaced. -/
def registerTemplate (network : Network) (name : String) (definition : Instruction) : Network :=
  { network with templates := Text.insertSorted name definition network.templates }

def template? (network : Network) (name : String) : Option Instruction :=
  network.templates.lookup name

def templateNames (network : Network) : List String :=
  network.templates.map Prod.fst

/-- Records an annotation; an earlier one of the same key is replaced. -/
def annotate (network : Network) (key value : String) : Network :=
  { network with annotations := Text.insertSorted key value network.annotations }

def addIssue (network : Network) (issue : Issue) : Network :=
  { network with issues := network.issues ++ [issue] }

def errorCount (network : Network) : Nat :=
  (network.issues.filter fun issue => issue.severity == .error).length

def hasErrors (network : Network) : Bool :=
  network.issues.any fun issue => issue.severity == .error

def summary (network : Network) : String :=
  s!"Network '{network.name}': {network.size} layers, {network.edgeCount} edges, "
    ++ s!"{network.inputLayers.length} inputs, {network.outputLayers.length} outputs, "
    ++ s!"{network.issues.length} issues ({network.errorCount} errors)"

def render (network : Network) : String :=
  s!"NetworkModel '{network.name}' ({network.size} layers):\n"
    ++ String.join (network.layers.toList.map fun layer => "  " ++ layer.summary ++ "\n")

end Network

end NetBlueprint
