import NetBlueprint.Graph.Condition
import NetBlueprint.Graph.Network

/-!
Contract: well-formed networks, and how they grow.

A network only ever gains layers at its end, edges and issues; what a layer is apart from its edges
is fixed from when it is added. `WellFormed` is what every reader of a network relies on when it
looks up a stored number without a check. Both ways to change the layers keep it, as long as the
kind of a new layer refers to earlier layers only.
-/

namespace NetBlueprint

namespace LayerKind

def children : LayerKind → List LayerId
  | .composite children => children
  | _ => []

/-- Decides whether a kind describes an instruction that has not been unrolled. -/
def isDescriptor : LayerKind → Bool
  | .test _ _ _ | .repetition _ _ _ _ | .template _ => true
  | _ => false

/-- What a conditional layer chooses by can be read as a condition. -/
def IsReadable : LayerKind → Prop
  | .conditional text _ _ => ∃ condition, Condition.parse text = .ok condition
  | _ => True

/-- A kind refers to no layers, has been unrolled, and depends on no unreadable condition. -/
structure IsLeaf (kind : LayerKind) : Prop where
  roots : kind.roots = []
  children : kind.children = []
  unrolled : kind.isDescriptor = false
  readable : kind.IsReadable

/-- The kinds that a declaration may stand for; only that of an input stands for an input, and only
that of an output for an output. No declaration gives a dense layer its weights. -/
def IsDeclared (isInput isOutput : Bool) : LayerKind → Prop
  | .input _ _ => isInput = true
  | .output _ _ _ => isOutput = true
  | .dense layer => layer.weights = none
  | .conditional _ _ _ | .test _ _ _ | .repetition _ _ _ _ | .composite _ | .template _ => False
  | _ => True

/-- A declared kind refers to no layers. -/
theorem IsDeclared.isLeaf {isInput isOutput : Bool} {kind : LayerKind}
    (declared : kind.IsDeclared isInput isOutput) : kind.IsLeaf := by
  cases kind with
  | conditional _ _ _ | test _ _ _ | repetition _ _ _ _ | composite _ | template _ =>
      exact declared.elim
  | _ => exact ⟨rfl, rfl, rfl, trivial⟩

end LayerKind

def Layer.node (layer : Layer) : Layer :=
  { layer with inputs := [], outputs := [] }

theorem Layer.name_eq_of_node {first second : Layer} (same : first.node = second.node) :
    first.name = second.name := by
  have names := congrArg Layer.name same
  exact names

theorem Layer.kind_eq_of_node {first second : Layer} (same : first.node = second.node) :
    first.kind = second.kind := by
  have kinds := congrArg Layer.kind same
  exact kinds

namespace Network

def nodes (network : Network) : List Layer :=
  network.layers.toList.map Layer.node

def Readable (network : Network) : Prop :=
  ∀ node ∈ network.nodes, node.kind.IsReadable

def Edge (network : Network) (source target : LayerId) : Prop :=
  ∃ layer, network.layer? source = some layer ∧ target ∈ layer.outputs

/-- Every stored number is in range and every edge is stored once at either end. A root is an
output before its conditional, the children of a module stand before it, and nothing is left that
has not been unrolled. -/
structure WellFormed (network : Network) : Prop where
  numbered : ∀ {id layer}, network.layer? id = some layer → layer.id = id
  mirrored : ∀ {source target first second}, network.layer? source = some first →
    network.layer? target = some second → (target ∈ first.outputs ↔ source ∈ second.inputs)
  outputsOnce : ∀ {id layer}, network.layer? id = some layer → layer.outputs.Nodup
  inputsOnce : ∀ {id layer}, network.layer? id = some layer → layer.inputs.Nodup
  outputsInRange : ∀ {id layer other}, network.layer? id = some layer →
    other ∈ layer.outputs → other < network.size
  inputsInRange : ∀ {id layer other}, network.layer? id = some layer →
    other ∈ layer.inputs → other < network.size
  rootsEarlier : ∀ {id layer root}, network.layer? id = some layer → root ∈ layer.kind.roots →
    root < id ∧ ∃ chosen, network.layer? root = some chosen ∧ chosen.kind.isOutput = true
  childrenOnce : ∀ {id layer}, network.layer? id = some layer → layer.kind.children.Nodup
  childrenEarlier : ∀ {id layer child}, network.layer? id = some layer →
    child ∈ layer.kind.children → child < id
  unrolled : ∀ {id layer}, network.layer? id = some layer → layer.kind.isDescriptor = false

/-- The part of `WellFormed` that is about edges alone: layers know their own numbers, and every
edge is stored once at either end. -/
structure Wired (network : Network) : Prop where
  numbered : ∀ {id layer}, network.layer? id = some layer → layer.id = id
  mirrored : ∀ {source target first second}, network.layer? source = some first →
    network.layer? target = some second → (target ∈ first.outputs ↔ source ∈ second.inputs)
  outputsOnce : ∀ {id layer}, network.layer? id = some layer → layer.outputs.Nodup
  inputsOnce : ∀ {id layer}, network.layer? id = some layer → layer.inputs.Nodup
  outputsInRange : ∀ {id layer other}, network.layer? id = some layer →
    other ∈ layer.outputs → other < network.size
  inputsInRange : ∀ {id layer other}, network.layer? id = some layer →
    other ∈ layer.inputs → other < network.size

/-- The networks that adding layers and connecting them can build, with kinds of any sort. -/
inductive Built : Network → Prop where
  | empty (name : String) : Built (empty name)
  | addLayer {network : Network} (name : String) (kind : LayerKind) (built : Built network) :
      Built (network.addLayer name kind)
  | connect {earlier later : Network} {source target : LayerId} {isNew : Bool}
      (built : Built earlier) (connected : earlier.connect source target = .ok (isNew, later)) :
      Built later

/-- A kind refers to layers that the network has already, as a new layer may. -/
structure Accepts (network : Network) (kind : LayerKind) : Prop where
  roots : ∀ root ∈ kind.roots,
    ∃ chosen, network.layer? root = some chosen ∧ chosen.kind.isOutput = true
  childrenOnce : kind.children.Nodup
  children : ∀ child ∈ kind.children, child < network.size
  unrolled : kind.isDescriptor = false
  readable : kind.IsReadable

/-- The first network is a stage on the way to the second. -/
structure GrowsTo (earlier later : Network) : Prop where
  nodes : earlier.nodes <+: later.nodes
  edges : ∀ {source target}, earlier.Edge source target → later.Edge source target
  issues : earlier.issues <+: later.issues

/-! ## Looking up layers -/

theorem layer?_eq_none {network : Network} {id : LayerId} (outside : network.size ≤ id) :
    network.layer? id = none :=
  Array.getElem?_eq_none outside

theorem mem_layers {network : Network} {id : LayerId} {layer : Layer}
    (found : network.layer? id = some layer) : layer ∈ network.layers.toList :=
  Array.mem_toList_iff.2 (Array.mem_of_getElem? found)

theorem lt_size_of_layer? {network : Network} {id : LayerId} {layer : Layer}
    (found : network.layer? id = some layer) : id < network.size := by
  rcases Nat.lt_or_ge id network.size with inside | outside
  · exact inside
  · rw [layer?_eq_none outside] at found
    cases found

/-- Every number below the size is that of a layer. -/
theorem exists_layer?_of_lt {network : Network} {id : LayerId} (inside : id < network.size) :
    ∃ layer, network.layer? id = some layer :=
  ⟨network.layers[id], Array.getElem?_eq_getElem inside⟩

private theorem not_layer?_empty {name : String} {id : LayerId} {layer : Layer}
    (found : (empty name).layer? id = some layer) : False :=
  Nat.not_lt_zero id (lt_size_of_layer? found)

theorem getElem?_nodes (network : Network) (id : LayerId) :
    network.nodes[id]? = (network.layer? id).map Layer.node := by
  rw [nodes, List.getElem?_map, Array.getElem?_toList, layer?]

theorem length_nodes (network : Network) : network.nodes.length = network.size := by
  rw [nodes, List.length_map, Array.length_toList, size]

/-- Networks with the same nodes have the same layers apart from their edges. -/
theorem layer?_of_nodes {earlier later : Network} (nodes : later.nodes = earlier.nodes)
    {id : LayerId} {layer : Layer} (found : later.layer? id = some layer) :
    ∃ same, earlier.layer? id = some same ∧ same.node = layer.node := by
  have stored := getElem?_nodes later id
  rw [nodes, getElem?_nodes, found, Option.map_some] at stored
  exact Option.map_eq_some_iff.1 stored

theorem nodes_of_layers {first second : Network} (layers : second.layers = first.layers) :
    second.nodes = first.nodes := by
  rw [nodes, layers]
  rfl

/-- A new layer comes behind the others. -/
theorem nodes_addLayer (network : Network) (name : String) (kind : LayerKind) :
    (network.addLayer name kind).nodes =
      network.nodes ++ [⟨network.size, name, kind, [], []⟩] := by
  simp [nodes, addLayer, size, Layer.node]

/-- The layers after one was added: those before it and the new one. -/
theorem layer?_addLayer {network : Network} {name : String} {kind : LayerKind} {id : LayerId}
    {layer : Layer} (found : (network.addLayer name kind).layer? id = some layer) :
    network.layer? id = some layer ∨
      id = network.size ∧ layer = ⟨network.size, name, kind, [], []⟩ := by
  have inside := lt_size_of_layer? found
  rw [size_addLayer] at inside
  rcases Nat.lt_succ_iff_lt_or_eq.1 inside with earlier | rfl
  · rw [layer?_addLayer_of_lt network name kind earlier] at found
    exact .inl found
  · rw [layer?_addLayer_size] at found
    exact .inr ⟨rfl, (Option.some.inj found).symm⟩

private theorem mem_extended {condition : Prop} [Decidable condition] {ids : List LayerId}
    {id last : LayerId} :
    id ∈ (if condition then ids ++ [last] else ids) ↔ id ∈ ids ∨ condition ∧ id = last := by
  split
  · rename_i holds
    rw [List.mem_append, List.mem_singleton]
    exact or_congr_right ⟨fun same => ⟨holds, same⟩, And.right⟩
  · rename_i fails
    exact ⟨.inl, fun either => either.resolve_right fun new => fails new.1⟩

private theorem layer?_addEdge (network : Network) (source target id : LayerId) :
    (network.addEdge source target).layer? id = (network.layer? id).map fun layer =>
      { layer with
        outputs := if source = id then layer.outputs ++ [target] else layer.outputs
        inputs := if target = id then layer.inputs ++ [source] else layer.inputs } := by
  simp only [addEdge, layer?, Array.getElem?_modify]
  cases network.layers[id]? with
  | none => split <;> split <;> rfl
  | some layer => split <;> split <;> rfl

private theorem nodes_addEdge (network : Network) (source target : LayerId) :
    (network.addEdge source target).nodes = network.nodes := by
  apply List.ext_getElem?
  intro id
  rw [getElem?_nodes, getElem?_nodes, layer?_addEdge, Option.map_map]
  rfl

/-- The first layer with a name does not depend on edges. -/
theorem findId?_eq (network : Network) (name : String) :
    network.findId? name = (network.nodes.find? fun node => node.name == name).map Layer.id := by
  rw [findId?, find?, nodes, List.find?_map, ← Array.find?_toList, Option.map_map]
  rfl

/-- An edge is stored exactly where there is one. -/
theorem hasEdge_iff {network : Network} {source target : LayerId} :
    network.hasEdge source target = true ↔ network.Edge source target := by
  unfold hasEdge Edge
  cases network.layer? source with
  | none => simp
  | some layer => simp

/-- An edge starts at a layer of the network. -/
theorem Edge.source_lt {network : Network} {source target : LayerId}
    (edge : network.Edge source target) : source < network.size := by
  obtain ⟨_, found, _⟩ := edge
  exact lt_size_of_layer? found

/-- An edge ends at a layer of the network. -/
theorem Edge.target_lt {network : Network} {source target : LayerId} (wired : network.Wired)
    (edge : network.Edge source target) : target < network.size := by
  obtain ⟨_, found, stored⟩ := edge
  exact wired.outputsInRange found stored

theorem edge_iff_of_layers {first second : Network} (layers : second.layers = first.layers)
    {source target : LayerId} : second.Edge source target ↔ first.Edge source target := by
  rw [Edge, layer?, layers]
  rfl

theorem accepts_of_isLeaf {kind : LayerKind} (leaf : kind.IsLeaf) (network : Network) :
    network.Accepts kind where
  roots root member := by
    rw [leaf.roots] at member
    cases member
  childrenOnce := by
    rw [leaf.children]
    exact List.nodup_nil
  children child member := by
    rw [leaf.children] at member
    cases member
  unrolled := leaf.unrolled
  readable := leaf.readable

/-- Conditions stay readable where only edges differ. -/
theorem Readable.of_nodes {first second : Network} (readable : first.Readable)
    (nodes : second.nodes = first.nodes) : second.Readable := by
  intro node member
  rw [nodes] at member
  exact readable node member

/-- A network stays readable when a readable kind is added. -/
theorem Readable.addLayer {network : Network} (readable : network.Readable) {name : String}
    {kind : LayerKind} (accepted : network.Accepts kind) :
    (network.addLayer name kind).Readable := by
  intro node member
  rw [nodes_addLayer] at member
  rcases List.mem_append.1 member with old | new
  · exact readable node old
  · rw [List.mem_singleton.1 new]
    exact accepted.readable

/-! ## Growing -/

namespace GrowsTo

theorem refl (network : Network) : network.GrowsTo network :=
  ⟨List.prefix_refl _, id, List.prefix_refl _⟩

theorem trans {first second third : Network} (earlier : first.GrowsTo second)
    (later : second.GrowsTo third) : first.GrowsTo third :=
  ⟨earlier.nodes.trans later.nodes, later.edges ∘ earlier.edges,
    earlier.issues.trans later.issues⟩

variable {earlier later : Network}

theorem size_le (grows : earlier.GrowsTo later) : earlier.size ≤ later.size := by
  have shorter := grows.nodes.length_le
  rwa [length_nodes, length_nodes] at shorter

/-- What a layer is apart from its edges is fixed from when it is added. -/
theorem layer? (grows : earlier.GrowsTo later) {id : LayerId} {layer : Layer}
    (found : earlier.layer? id = some layer) :
    ∃ same, later.layer? id = some same ∧ same.node = layer.node := by
  have node := getElem?_nodes earlier id
  rw [found, Option.map_some] at node
  obtain ⟨rest, whole⟩ := grows.nodes
  have inside : id < earlier.nodes.length := by
    rw [length_nodes]
    exact lt_size_of_layer? found
  have kept := getElem?_nodes later id
  rw [← whole, List.getElem?_append_left inside, node] at kept
  obtain ⟨same, sameFound, sameNode⟩ := Option.map_eq_some_iff.1 kept.symm
  exact ⟨same, sameFound, sameNode⟩

/-- A name that is found stays found, at the same layer. -/
theorem findId? (grows : earlier.GrowsTo later) {name : String} {id : LayerId}
    (found : earlier.findId? name = some id) : later.findId? name = some id := by
  obtain ⟨rest, whole⟩ := grows.nodes
  rw [findId?_eq] at found ⊢
  obtain ⟨node, nodeFound, rfl⟩ := Option.map_eq_some_iff.1 found
  rw [← whole, List.find?_append, nodeFound]
  rfl

/-- What can be tested of the kind of a layer stays as it is. -/
theorem ofKind (grows : earlier.GrowsTo later) {test : LayerKind → Bool} {id : LayerId}
    (tested : ∃ layer, earlier.layer? id = some layer ∧ test layer.kind = true) :
    ∃ layer, later.layer? id = some layer ∧ test layer.kind = true := by
  obtain ⟨layer, found, passes⟩ := tested
  obtain ⟨same, sameFound, sameNode⟩ := grows.layer? found
  rw [← Layer.kind_eq_of_node sameNode] at passes
  exact ⟨same, sameFound, passes⟩

end GrowsTo

/-- Templates and annotations may change freely. -/
theorem GrowsTo.of_layers {earlier later : Network} (layers : later.layers = earlier.layers)
    (issues : earlier.issues <+: later.issues) : earlier.GrowsTo later where
  nodes := ⟨[], by rw [List.append_nil, Network.nodes, Network.nodes, layers]⟩
  edges := (edge_iff_of_layers layers).2
  issues := issues

/-- Adding a layer leads to a later stage. -/
theorem growsTo_addLayer (network : Network) (name : String) (kind : LayerKind) :
    network.GrowsTo (network.addLayer name kind) where
  nodes := by
    rw [nodes_addLayer]
    exact List.prefix_append _ _
  edges := by
    rintro source target ⟨layer, found, stored⟩
    refine ⟨layer, ?_, stored⟩
    rw [layer?_addLayer_of_lt network name kind (lt_size_of_layer? found)]
    exact found
  issues := List.prefix_refl _

private theorem growsTo_addEdge (network : Network) (source target : LayerId) :
    network.GrowsTo (network.addEdge source target) where
  nodes := ⟨[], by rw [List.append_nil, nodes_addEdge]⟩
  edges := by
    rintro first second ⟨layer, found, stored⟩
    rw [Edge, layer?_addEdge, found, Option.map_some]
    exact ⟨_, rfl, mem_extended.2 (.inl stored)⟩
  issues := List.prefix_refl _

theorem growsTo_addIssue (network : Network) (issue : Issue) :
    network.GrowsTo (network.addIssue issue) :=
  .of_layers rfl (List.prefix_append _ _)

/-- A new layer has no edges. -/
theorem edge_addLayer_iff {network : Network} {name : String} {kind : LayerKind}
    {source target : LayerId} :
    (network.addLayer name kind).Edge source target ↔ network.Edge source target := by
  constructor
  · rintro ⟨layer, found, stored⟩
    rcases layer?_addLayer found with earlier | ⟨_, rfl⟩
    · exact ⟨layer, earlier, stored⟩
    · cases stored
  · exact (growsTo_addLayer network name kind).edges

private theorem edge_addEdge {network : Network} {source target first second : LayerId}
    (edge : (network.addEdge source target).Edge first second) :
    network.Edge first second ∨ first = source ∧ second = target := by
  obtain ⟨layer, found, stored⟩ := edge
  rw [layer?_addEdge] at found
  obtain ⟨before, beforeFound, rfl⟩ := Option.map_eq_some_iff.1 found
  rcases mem_extended.1 stored with old | ⟨same, new⟩
  · exact .inl ⟨before, beforeFound, old⟩
  · exact .inr ⟨same.symm, new⟩

/-- An edge that is added is there. -/
theorem edge_addEdge_self {network : Network} {source target : LayerId}
    (inside : source < network.size) : (network.addEdge source target).Edge source target := by
  obtain ⟨layer, found⟩ := exists_layer?_of_lt inside
  rw [Edge, layer?_addEdge, found, Option.map_some]
  exact ⟨_, rfl, mem_extended.2 (.inr ⟨rfl, rfl⟩)⟩

/-! ## Connecting -/

/-- What connecting two layers achieves: the edge is there, and nothing but that edge is new. -/
structure Connects (earlier : Network) (source target : LayerId) (later : Network) : Prop where
  grows : earlier.GrowsTo later
  sourceInRange : source < earlier.size
  targetInRange : target < earlier.size
  connected : later.Edge source target
  noOther : ∀ {first second}, later.Edge first second →
    earlier.Edge first second ∨ first = source ∧ second = target
  nodes : later.nodes = earlier.nodes
  issues : later.issues = earlier.issues

/-- Connecting finds an edge that is there, or adds one between layers that are. -/
theorem connect_cases {earlier later : Network} {source target : LayerId} {isNew : Bool}
    (connected : earlier.connect source target = .ok (isNew, later)) :
    (source < earlier.size ∧ target < earlier.size) ∧
      (earlier.Edge source target ∧ later = earlier ∨
        ¬ earlier.Edge source target ∧ later = earlier.addEdge source target) := by
  unfold connect at connected
  split at connected
  · cases connected
  rename_i sourceInside
  split at connected
  · cases connected
  rename_i targetInside
  refine ⟨⟨Nat.lt_of_not_le sourceInside, Nat.lt_of_not_le targetInside⟩, ?_⟩
  split at connected
  · rename_i present
    cases connected
    exact .inl ⟨hasEdge_iff.1 present, rfl⟩
  · rename_i absent
    cases connected
    exact .inr ⟨fun edge => absent (hasEdge_iff.2 edge), rfl⟩

/-- Connecting two layers adds their edge and no other. -/
theorem connects_of_connect {earlier later : Network} {source target : LayerId} {isNew : Bool}
    (connected : earlier.connect source target = .ok (isNew, later)) :
    earlier.Connects source target later := by
  obtain ⟨⟨sourceInside, targetInside⟩, ⟨present, rfl⟩ | ⟨_, rfl⟩⟩ := connect_cases connected
  · exact ⟨.refl _, sourceInside, targetInside, present, .inl, rfl, rfl⟩
  · exact ⟨growsTo_addEdge _ _ _, sourceInside, targetInside, edge_addEdge_self sourceInside,
      edge_addEdge, nodes_addEdge _ _ _, rfl⟩

/-- Layers that exist can be connected. -/
theorem exists_connect {network : Network} {source target : LayerId}
    (sourceInside : source < network.size) (targetInside : target < network.size) :
    ∃ isNew later, network.connect source target = .ok (isNew, later) := by
  unfold connect
  rw [if_neg (Nat.not_le_of_lt sourceInside), if_neg (Nat.not_le_of_lt targetInside)]
  split
  · exact ⟨_, _, rfl⟩
  · exact ⟨_, _, rfl⟩

/-! ## Edges of layers that know their place -/

namespace Wired

theorem empty (name : String) : (empty name).Wired := by
  constructor <;> intros <;> exact (not_layer?_empty ‹_›).elim

/-- A new layer has no edges, and none leads to it. -/
theorem addLayer {network : Network} (wired : network.Wired) (name : String) (kind : LayerKind) :
    (network.addLayer name kind).Wired where
  numbered found := by
    rcases layer?_addLayer found with earlier | ⟨rfl, rfl⟩
    · exact wired.numbered earlier
    · rfl
  mirrored firstFound secondFound := by
    rcases layer?_addLayer firstFound with first | ⟨rfl, rfl⟩
    · rcases layer?_addLayer secondFound with second | ⟨rfl, rfl⟩
      · exact wired.mirrored first second
      · refine iff_of_false (fun stored => ?_) List.not_mem_nil
        exact absurd (wired.outputsInRange first stored) (Nat.lt_irrefl _)
    · rcases layer?_addLayer secondFound with second | ⟨rfl, rfl⟩
      · refine iff_of_false List.not_mem_nil (fun stored => ?_)
        exact absurd (wired.inputsInRange second stored) (Nat.lt_irrefl _)
      · exact iff_of_false List.not_mem_nil List.not_mem_nil
  outputsOnce found := by
    rcases layer?_addLayer found with earlier | ⟨rfl, rfl⟩
    · exact wired.outputsOnce earlier
    · exact List.nodup_nil
  inputsOnce found := by
    rcases layer?_addLayer found with earlier | ⟨rfl, rfl⟩
    · exact wired.inputsOnce earlier
    · exact List.nodup_nil
  outputsInRange found stored := by
    rw [size_addLayer]
    rcases layer?_addLayer found with earlier | ⟨rfl, rfl⟩
    · exact Nat.lt_succ_of_lt (wired.outputsInRange earlier stored)
    · cases stored
  inputsInRange found stored := by
    rw [size_addLayer]
    rcases layer?_addLayer found with earlier | ⟨rfl, rfl⟩
    · exact Nat.lt_succ_of_lt (wired.inputsInRange earlier stored)
    · cases stored

/-- A layer with a changed edge list is one that the network had before the edge was added. -/
theorem layer?_before {network : Network} {source target id : LayerId} {layer : Layer}
    (found : (network.addEdge source target).layer? id = some layer) :
    ∃ before, network.layer? id = some before ∧ layer.id = before.id ∧ layer.kind = before.kind ∧
      layer.outputs = (if source = id then before.outputs ++ [target] else before.outputs) ∧
      layer.inputs = (if target = id then before.inputs ++ [source] else before.inputs) := by
  rw [layer?_addEdge] at found
  obtain ⟨before, beforeFound, rfl⟩ := Option.map_eq_some_iff.1 found
  exact ⟨before, beforeFound, rfl, rfl, rfl, rfl⟩

private theorem nodup_extended {condition : Prop} [Decidable condition] {ids : List LayerId}
    {last : LayerId} (nodup : ids.Nodup) (new : condition → last ∉ ids) :
    (if condition then ids ++ [last] else ids).Nodup := by
  split
  · rename_i holds
    rw [List.nodup_append]
    refine ⟨nodup, List.nodup_cons.2 ⟨List.not_mem_nil, List.nodup_nil⟩, ?_⟩
    rintro other member _ isLast rfl
    rw [List.mem_singleton.1 isLast] at member
    exact new holds member
  · exact nodup

/-- An edge between layers that are there is stored at both of its ends. -/
theorem addEdge {network : Network} (wired : network.Wired) {source target : LayerId}
    (sourceInside : source < network.size) (targetInside : target < network.size)
    (isNew : ¬ network.Edge source target) : (network.addEdge source target).Wired where
  numbered found := by
    obtain ⟨before, beforeFound, sameId, _⟩ := layer?_before found
    rw [sameId]
    exact wired.numbered beforeFound
  mirrored firstFound secondFound := by
    obtain ⟨first, firstBefore, _, _, outputs, _⟩ := layer?_before firstFound
    obtain ⟨second, secondBefore, _, _, _, inputs⟩ := layer?_before secondFound
    rw [outputs, inputs, mem_extended, mem_extended, wired.mirrored firstBefore secondBefore]
    exact or_congr_right ⟨fun same => ⟨same.2.symm, same.1.symm⟩,
      fun same => ⟨same.2.symm, same.1.symm⟩⟩
  outputsOnce found := by
    obtain ⟨before, beforeFound, _, _, outputs, _⟩ := layer?_before found
    rw [outputs]
    refine nodup_extended (wired.outputsOnce beforeFound) ?_
    rintro rfl stored
    exact isNew ⟨before, beforeFound, stored⟩
  inputsOnce found := by
    obtain ⟨before, beforeFound, _, _, _, inputs⟩ := layer?_before found
    rw [inputs]
    refine nodup_extended (wired.inputsOnce beforeFound) ?_
    rintro rfl stored
    obtain ⟨first, firstFound⟩ := exists_layer?_of_lt sourceInside
    exact isNew ⟨first, firstFound, (wired.mirrored firstFound beforeFound).2 stored⟩
  outputsInRange found stored := by
    obtain ⟨before, beforeFound, _, _, outputs, _⟩ := layer?_before found
    rw [size_addEdge]
    rw [outputs] at stored
    rcases mem_extended.1 stored with old | ⟨_, rfl⟩
    · exact wired.outputsInRange beforeFound old
    · exact targetInside
  inputsInRange found stored := by
    obtain ⟨before, beforeFound, _, _, _, inputs⟩ := layer?_before found
    rw [size_addEdge]
    rw [inputs] at stored
    rcases mem_extended.1 stored with old | ⟨_, rfl⟩
    · exact wired.inputsInRange beforeFound old
    · exact sourceInside

/-- Connecting two layers keeps a network wired. -/
theorem connect {earlier later : Network} (wired : earlier.Wired) {source target : LayerId}
    {isNew : Bool} (connected : earlier.connect source target = .ok (isNew, later)) :
    later.Wired := by
  obtain ⟨⟨sourceInside, targetInside⟩, ⟨_, rfl⟩ | ⟨absent, rfl⟩⟩ := connect_cases connected
  · exact wired
  · exact wired.addEdge sourceInside targetInside absent

end Wired

theorem Built.addEdge {network : Network} {source target : LayerId} (built : network.Built)
    (sourceInside : source < network.size) (targetInside : target < network.size)
    (isNew : network.hasEdge source target = false) : (network.addEdge source target).Built := by
  refine .connect built (?_ : network.connect source target = .ok (true, _))
  unfold Network.connect
  rw [if_neg (Nat.not_le_of_lt sourceInside), if_neg (Nat.not_le_of_lt targetInside), isNew]
  rfl

/-- Whatever is built has its edges in order. -/
theorem Built.wired {network : Network} (built : network.Built) : network.Wired := by
  induction built with
  | empty name => exact .empty name
  | addLayer name kind _ inductionHypothesis => exact inductionHypothesis.addLayer name kind
  | connect _ connected inductionHypothesis => exact inductionHypothesis.connect connected

/-! ## Well-formed networks -/

theorem wellFormed_empty (name : String) : (empty name).WellFormed := by
  constructor <;> intros <;> exact (not_layer?_empty ‹_›).elim

namespace WellFormed

/-- A well-formed network is wired. -/
theorem wired {network : Network} (wellFormed : network.WellFormed) : network.Wired :=
  { wellFormed with }

theorem of_layers {first second : Network} (wellFormed : first.WellFormed)
    (layers : second.layers = first.layers) : second.WellFormed := by
  cases first
  cases second
  cases layers
  exact { wellFormed with }

/-- Adding a layer that is accepted keeps a network well-formed. -/
theorem addLayer {network : Network} (wellFormed : network.WellFormed) {name : String}
    {kind : LayerKind} (accepted : network.Accepts kind) :
    (network.addLayer name kind).WellFormed := {
    wellFormed.wired.addLayer name kind with
    rootsEarlier {id layer root} found member := by
      have isRoot : root < id ∧
          ∃ chosen, network.layer? root = some chosen ∧ chosen.kind.isOutput = true := by
        rcases layer?_addLayer found with earlier | ⟨rfl, rfl⟩
        · exact wellFormed.rootsEarlier earlier member
        · obtain ⟨chosen, chosenFound, isOutput⟩ := accepted.roots _ member
          exact ⟨lt_size_of_layer? chosenFound, chosen, chosenFound, isOutput⟩
      obtain ⟨before, chosen, chosenFound, isOutput⟩ := isRoot
      refine ⟨before, chosen, ?_, isOutput⟩
      rw [layer?_addLayer_of_lt network name kind (lt_size_of_layer? chosenFound)]
      exact chosenFound
    childrenOnce found := by
      rcases layer?_addLayer found with earlier | ⟨rfl, rfl⟩
      · exact wellFormed.childrenOnce earlier
      · exact accepted.childrenOnce
    childrenEarlier found member := by
      rcases layer?_addLayer found with earlier | ⟨rfl, rfl⟩
      · exact wellFormed.childrenEarlier earlier member
      · exact accepted.children _ member
    unrolled found := by
      rcases layer?_addLayer found with earlier | ⟨rfl, rfl⟩
      · exact wellFormed.unrolled earlier
      · exact accepted.unrolled }

/-- Adding an edge keeps a network well-formed. -/
theorem addEdge {network : Network} (wellFormed : network.WellFormed) {source target : LayerId}
    (sourceInside : source < network.size) (targetInside : target < network.size)
    (isNew : ¬ network.Edge source target) : (network.addEdge source target).WellFormed := {
    wellFormed.wired.addEdge sourceInside targetInside isNew with
    rootsEarlier found member := by
      obtain ⟨before, beforeFound, _, sameKind, _, _⟩ := Wired.layer?_before found
      rw [sameKind] at member
      obtain ⟨earlier, isOutput⟩ := wellFormed.rootsEarlier beforeFound member
      exact ⟨earlier, (growsTo_addEdge network source target).ofKind isOutput⟩
    childrenOnce found := by
      obtain ⟨before, beforeFound, _, sameKind, _, _⟩ := Wired.layer?_before found
      rw [sameKind]
      exact wellFormed.childrenOnce beforeFound
    childrenEarlier found member := by
      obtain ⟨before, beforeFound, _, sameKind, _, _⟩ := Wired.layer?_before found
      rw [sameKind] at member
      exact wellFormed.childrenEarlier beforeFound member
    unrolled found := by
      obtain ⟨before, beforeFound, _, sameKind, _, _⟩ := Wired.layer?_before found
      rw [sameKind]
      exact wellFormed.unrolled beforeFound }

/-- Connecting two layers keeps a network well-formed. -/
theorem connect {earlier later : Network} (wellFormed : earlier.WellFormed)
    {source target : LayerId} {isNew : Bool}
    (connected : earlier.connect source target = .ok (isNew, later)) : later.WellFormed := by
  obtain ⟨⟨sourceInside, targetInside⟩, ⟨_, rfl⟩ | ⟨absent, rfl⟩⟩ := connect_cases connected
  · exact wellFormed
  · exact wellFormed.addEdge sourceInside targetInside absent

end WellFormed

end Network

end NetBlueprint
