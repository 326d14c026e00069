import NetBlueprint.Graph.Evaluation
import NetBlueprint.Proofs.Graph.Grounded
import NetBlueprint.Proofs.Graph.WellFormed

/-!
Contract: what the value of a layer depends on, and which faults an evaluation may end with.

A layer depends on its producers, a conditional layer on the root that its condition selects and on
nothing else, and a module also on the conditional layers it groups. The network of an evaluation
differs from the one it started with in the weights of dense layers only, and neither dependencies
nor foreseen faults look at these.

Owns: modules and what they group, conditions and what they select, dependencies, foreseen faults.
Does not own: the evaluation itself.
-/

namespace NetBlueprint

namespace LayerKind

def unweighted : LayerKind → LayerKind
  | .dense layer => .dense { layer with weights := none }
  | kind => kind

private theorem unweighted_of_notDense {kind : LayerKind} (notDense : kind.dense? = none) :
    kind.unweighted = kind := by
  cases kind with
  | dense _ => cases notDense
  | _ => rfl

/-- Only a dense layer has weights to differ in. -/
theorem eq_of_unweighted {first second : LayerKind}
    (same : first.unweighted = second.unweighted) (notDense : second.dense? = none) :
    first = second := by
  rw [unweighted_of_notDense notDense] at same
  cases first with
  | dense _ =>
      rw [← same] at notDense
      cases notDense
  | _ => exact same

theorem children_unweighted (kind : LayerKind) : kind.unweighted.children = kind.children := by
  cases kind <;> rfl

theorem roots_unweighted (kind : LayerKind) : kind.unweighted.roots = kind.roots := by
  cases kind <;> rfl

theorem isOutput_unweighted (kind : LayerKind) : kind.unweighted.isOutput = kind.isOutput := by
  cases kind <;> rfl

theorem isInput_unweighted (kind : LayerKind) : kind.unweighted.isInput = kind.isInput := by
  cases kind <;> rfl

theorem isConditional_unweighted (kind : LayerKind) :
    kind.unweighted.isConditional = kind.isConditional := by
  cases kind <;> rfl

end LayerKind

def Layer.unweighted (layer : Layer) : Layer :=
  { layer with kind := layer.kind.unweighted }

namespace Network

/-- The layers in their order, without the weights of dense ones. -/
def unweighted (network : Network) : List Layer :=
  network.layers.toList.map Layer.unweighted

def Groups (network : Network) (id child : LayerId) : Prop :=
  ∃ layer, network.layer? id = some layer ∧ child ∈ layer.kind.children

def HasRoot (network : Network) (chooser root : LayerId) : Prop :=
  ∃ layer, network.layer? chooser = some layer ∧ root ∈ layer.kind.roots

def ChoosesBy (network : Network) (id : LayerId) (layer : Layer) (condition : Condition)
    (thenRoot elseRoot : Option LayerId) : Prop :=
  network.layer? id = some layer ∧ ∃ text, layer.kind = .conditional text thenRoot elseRoot ∧
    Condition.parse text = .ok condition

def IsConditional (network : Network) (id : LayerId) : Prop :=
  ∃ layer, network.layer? id = some layer ∧ layer.kind.isConditional = true

/-- The value of a layer needs the value of another. -/
inductive Depends (network : Network) (feed : Feed) : LayerId → LayerId → Prop where
  | producer {id producer : LayerId} {layer : Layer} (found : network.layer? id = some layer)
      (notInput : layer.kind.isInput = false) (notConditional : layer.kind.isConditional = false)
      (stored : producer ∈ layer.inputs) : Depends network feed id producer
  | root {id root : LayerId} {layer : Layer} {condition : Condition}
      {thenRoot elseRoot : Option LayerId} {holds : Bool}
      (chooses : network.ChoosesBy id layer condition thenRoot elseRoot)
      (decided : condition.evaluate feed.inputs = .ok holds)
      (selected : (if holds then thenRoot else elseRoot) = some root) : Depends network feed id root
  | grouped {id child : LayerId} (groups : Relation.TransGen network.Groups id child)
      (isConditional : network.IsConditional child) : Depends network feed id child

/-- An evaluation of the network may come to a layer. -/
def Reaches (network : Network) (feed : Feed) (id : LayerId) : Prop :=
  ∃ root ∈ network.forwardRoots, Relation.ReflTransGen (network.Depends feed) root id

/-- The faults that an evaluation may end with, each where its cause is met. -/
inductive Foreseen (network : Network) (feed : Feed) : GraphError → Prop where
  | noInput {id : LayerId} {layer : Layer} (found : network.layer? id = some layer)
      (isInput : layer.kind.isInput = true) (missing : feed.inputs.lookup layer.name = none) :
      Foreseen network feed (.missingInput layer.name)
  | noOperand {id : LayerId} {layer : Layer} {condition : Condition}
      {thenRoot elseRoot : Option LayerId}
      (chooses : network.ChoosesBy id layer condition thenRoot elseRoot)
      (missing : feed.inputs.lookup condition.ident = none) :
      Foreseen network feed (.missingInput condition.ident)
  | noRoot {id : LayerId} {layer : Layer} {condition : Condition}
      {thenRoot elseRoot : Option LayerId} {holds : Bool}
      (chooses : network.ChoosesBy id layer condition thenRoot elseRoot)
      (decided : condition.evaluate feed.inputs = .ok holds)
      (selected : (if holds then thenRoot else elseRoot) = none)
      (missing : feed.inputs.lookup layer.name = none) :
      Foreseen network feed (.missingInput layer.name)
  | outOfRange {id : LayerId} {layer : Layer} {condition : Condition}
      {thenRoot elseRoot : Option LayerId} {values : Vector32}
      (chooses : network.ChoosesBy id layer condition thenRoot elseRoot)
      (supplied : feed.inputs.lookup condition.ident = some values)
      (outside : values.length ≤ condition.index.getD 0) :
      Foreseen network feed
        (.indexOutOfRange condition.ident (condition.index.getD 0) values.length)
  | mismatch {id : LayerId} {layer : Layer} {dense : Dense} {expected actual : Nat}
      (found : network.layer? id = some layer) (isDense : layer.kind = .dense dense)
      (differs : expected ≠ actual) :
      Foreseen network feed (.shapeMismatch layer.name expected actual)
  | cycle {id : LayerId} {layer : Layer} (found : network.layer? id = some layer)
      (reaches : network.Reaches feed id)
      (loops : Relation.TransGen (network.Depends feed) id id) :
      Foreseen network feed (.cycle layer.name)

variable {network : Network} {feed : Feed} {id other : LayerId} {layer : Layer}

/-- What a layer depends on directly or through others is come to with it. -/
theorem Reaches.of_reflTransGen (reaches : network.Reaches feed id)
    (leads : Relation.ReflTransGen (network.Depends feed) id other) :
    network.Reaches feed other := by
  obtain ⟨root, isRoot, earlier⟩ := reaches
  exact ⟨root, isRoot, earlier.trans leads⟩

theorem Reaches.of_depends (reaches : network.Reaches feed id)
    (depends : network.Depends feed id other) : network.Reaches feed other :=
  reaches.of_reflTransGen (.single depends)

/-! ## Dependencies of a layer by its kind -/

private theorem Groups.mem_children (found : network.layer? id = some layer)
    (groups : network.Groups id other) : other ∈ layer.kind.children := by
  obtain ⟨same, sameFound, member⟩ := groups
  cases found.symm.trans sameFound
  exact member

/-- The conditional layers that a layer is or groups. -/
def HoldsConditional (network : Network) (id child : LayerId) : Prop :=
  Relation.ReflTransGen network.Groups id child ∧ network.IsConditional child

theorem IsConditional.of_found (found : network.layer? id = some layer)
    (isConditional : network.IsConditional id) : layer.kind.isConditional = true := by
  obtain ⟨same, sameFound, holds⟩ := isConditional
  cases found.symm.trans sameFound
  exact holds

/-- An output is no conditional layer. -/
theorem not_isConditional_of_isOutput (found : network.layer? id = some layer)
    (isOutput : layer.kind.isOutput = true) : ¬ network.IsConditional id := by
  intro isConditional
  have both := isConditional.of_found found
  cases kind : layer.kind with
  | conditional _ _ _ =>
      rw [kind] at isOutput
      cases isOutput
  | _ =>
      rw [kind] at both
      cases both

/-- A conditional layer that another one holds is that one, or a child of it holds it. -/
theorem HoldsConditional.cases (found : network.layer? id = some layer)
    (holds : network.HoldsConditional id other) :
    (other = id ∧ layer.kind.isConditional = true) ∨
      ∃ child ∈ layer.kind.children, network.HoldsConditional child other := by
  obtain ⟨groups, isConditional⟩ := holds
  rcases Relation.ReflTransGen.cases_head groups with rfl | ⟨child, first, rest⟩
  · exact .inl ⟨rfl, isConditional.of_found found⟩
  · exact .inr ⟨child, first.mem_children found, rest, isConditional⟩

/-- Whatever a layer depends on is a producer of it, the root that it selects, or a conditional
layer that one of its children holds. -/
theorem Depends.cases (found : network.layer? id = some layer)
    (depends : network.Depends feed id other) :
    (layer.kind.isInput = false ∧ layer.kind.isConditional = false ∧ other ∈ layer.inputs) ∨
      (∃ condition thenRoot elseRoot holds, network.ChoosesBy id layer condition thenRoot elseRoot ∧
        condition.evaluate feed.inputs = .ok holds ∧
        (if holds then thenRoot else elseRoot) = some other) ∨
      ∃ child ∈ layer.kind.children, network.HoldsConditional child other := by
  cases depends with
  | producer same notInput notConditional stored =>
      cases found.symm.trans same
      exact .inl ⟨notInput, notConditional, stored⟩
  | root chooses decided selected =>
      cases found.symm.trans chooses.1
      exact .inr (.inl ⟨_, _, _, _, chooses, decided, selected⟩)
  | grouped groups isConditional =>
      obtain ⟨child, first, rest⟩ := Relation.TransGen.head'_iff.1 groups
      exact .inr (.inr ⟨child, first.mem_children found, rest, isConditional⟩)

/-- The value of an input comes from outside. -/
theorem not_depends_of_isInput (found : network.layer? id = some layer)
    (isInput : layer.kind.isInput = true) : ¬ network.Depends feed id other := by
  intro depends
  cases kind : layer.kind with
  | input size shape =>
      rcases depends.cases found with ⟨notInput, _⟩ | ⟨_, _, _, _, chooses, _⟩ | ⟨_, member, _⟩
      · simp [isInput] at notInput
      · obtain ⟨_, _, isChoice, _⟩ := chooses
        cases kind.symm.trans isChoice
      · simp [kind, LayerKind.children] at member
  | _ => simp [kind, LayerKind.isInput] at isInput

/-- The condition of a conditional layer can be read. -/
theorem Readable.exists_condition (readable : network.Readable)
    (found : network.layer? id = some layer) {text : String} {thenRoot elseRoot : Option LayerId}
    (kind : layer.kind = .conditional text thenRoot elseRoot) :
    ∃ condition, Condition.parse text = .ok condition := by
  have node : layer.node ∈ network.nodes :=
    List.mem_of_getElem? ((getElem?_nodes network id).trans (by rw [found]; rfl))
  have isReadable : layer.kind.IsReadable := readable layer.node node
  rw [kind] at isReadable
  exact isReadable

/-- A conditional layer depends on the root that is selected. -/
theorem eq_root_of_depends {condition : Condition} {thenRoot elseRoot : Option LayerId}
    {holds : Bool} (chooses : network.ChoosesBy id layer condition thenRoot elseRoot)
    (decided : condition.evaluate feed.inputs = .ok holds)
    (depends : network.Depends feed id other) :
    (if holds then thenRoot else elseRoot) = some other := by
  obtain ⟨found, text, kind, parsed⟩ := chooses
  rcases depends.cases found with
    ⟨_, notConditional, _⟩ | ⟨_, _, _, _, again, sameDecided, selected⟩ | ⟨_, member, _⟩
  · simp [kind, LayerKind.isConditional] at notConditional
  · obtain ⟨_, _, sameKind, sameParsed⟩ := again
    cases kind.symm.trans sameKind
    cases parsed.symm.trans sameParsed
    cases decided.symm.trans sameDecided
    exact selected
  · simp [kind, LayerKind.children] at member

/-- Any other layer depends on its producers and the conditional layers it groups. -/
theorem producer_or_grouped (found : network.layer? id = some layer)
    (notConditional : layer.kind.isConditional = false) (depends : network.Depends feed id other) :
    other ∈ layer.inputs ∨ network.HoldsConditional id other := by
  rcases depends.cases found with ⟨_, _, stored⟩ | ⟨_, _, _, _, chooses, _⟩ | ⟨child, member, holds⟩
  · exact .inl stored
  · obtain ⟨_, _, kind, _⟩ := chooses
    simp [kind, LayerKind.isConditional] at notConditional
  · exact .inr ⟨.head ⟨layer, found, member⟩ holds.1, holds.2⟩

/-- A layer depends on layers of the network only. -/
theorem Depends.lt_size (wellFormed : network.WellFormed)
    (depends : network.Depends feed id other) : other < network.size := by
  cases depends with
  | producer found _ _ stored => exact wellFormed.inputsInRange found stored
  | @root _ _ thenRoot elseRoot holds chooses _ selected =>
      obtain ⟨found, text, kind, _⟩ := chooses
      have isRoot : other ∈ (LayerKind.conditional text thenRoot elseRoot).roots := by
        cases holds with
        | true => exact List.mem_append_left _ (Option.mem_toList.2 selected)
        | false => exact List.mem_append_right _ (Option.mem_toList.2 selected)
      rw [← kind] at isRoot
      exact Nat.lt_trans (wellFormed.rootsEarlier found isRoot).1 (lt_size_of_layer? found)
  | grouped _ isConditional =>
      obtain ⟨_, found, _⟩ := isConditional
      exact lt_size_of_layer? found

/-! ## Networks that differ in weights -/

def Stores (network : Network) (id : LayerId) (found : Layer) : Prop :=
  ∃ layer, network.layer? id = some layer ∧ found.unweighted = layer.unweighted

theorem getElem?_unweighted (network : Network) (id : LayerId) :
    network.unweighted[id]? = (network.layer? id).map Layer.unweighted := by
  rw [unweighted, List.getElem?_map, Array.getElem?_toList, layer?]

theorem length_unweighted (network : Network) : network.unweighted.length = network.size := by
  rw [unweighted, List.length_map, Array.length_toList, size]

/-- A layer that was looked up after weights have changed. -/
theorem exists_stores {current : Network} (same : current.unweighted = network.unweighted)
    (inside : id < network.size) :
    ∃ found, current.layer? id = some found ∧ network.Stores id found := by
  obtain ⟨layer, isLayer⟩ := exists_layer?_of_lt inside
  have stored := getElem?_unweighted current id
  rw [same, getElem?_unweighted, isLayer] at stored
  obtain ⟨found, isFound, alike⟩ := Option.map_eq_some_iff.1 stored.symm
  exact ⟨found, isFound, layer, isLayer, alike⟩

/-- Evaluations start from outputs and conditional layers that no layer chooses. -/
theorem mem_forwardRoots_iff
    (numbered : ∀ {id layer}, network.layer? id = some layer → layer.id = id)
    (found : network.layer? id = some layer) :
    id ∈ network.forwardRoots ↔
      (layer.kind.isOutput = true ∨ layer.kind.isConditional = true) ∧
        ∀ chooser, ¬ network.HasRoot chooser id := by
  have stored {other : Layer} (member : other ∈ network.layers.toList) :
      network.layer? other.id = some other := by
    obtain ⟨position, isStored⟩ := Array.mem_iff_getElem?.1 (Array.mem_toList_iff.1 member)
    rw [numbered isStored]
    exact isStored
  have chosen : id ∈ network.branchRoots ↔ ∃ chooser, network.HasRoot chooser id := by
    rw [branchRoots, List.mem_flatMap]
    constructor
    · rintro ⟨other, member, isRoot⟩
      exact ⟨other.id, other, stored member, isRoot⟩
    · rintro ⟨chooser, other, isStored, isRoot⟩
      exact ⟨other, mem_layers isStored, isRoot⟩
  have own : layer.id = id := numbered found
  rw [← not_exists, ← chosen, forwardRoots, List.mem_map]
  constructor
  · rintro ⟨other, member, same⟩
    obtain ⟨isStored, holds⟩ := List.mem_filter.1 member
    have isLayer := stored isStored
    rw [same, found] at isLayer
    cases isLayer
    simpa [own] using holds
  · rintro ⟨isKind, notChosen⟩
    have member := mem_layers found
    refine ⟨layer, List.mem_filter.2 ⟨member, ?_⟩, own⟩
    simpa [own] using ⟨isKind, notChosen⟩

/-- Evaluations start from the same layers whatever the weights are. -/
theorem forwardRoots_eq (network : Network) :
    network.forwardRoots =
      (network.unweighted.filter fun layer =>
        (layer.kind.isOutput || layer.kind.isConditional) &&
          !(network.unweighted.flatMap fun layer => layer.kind.roots).contains layer.id).map
        Layer.id := by
  have roots :
      (network.unweighted.flatMap fun layer => layer.kind.roots) = network.branchRoots := by
    rw [unweighted, List.flatMap_map, branchRoots]
    exact List.flatMap_congr fun layer _ => LayerKind.roots_unweighted layer.kind
  rw [roots, unweighted, List.filter_map, List.map_map, forwardRoots]
  congr 1
  refine List.filter_congr fun layer _ => ?_
  change _ = ((layer.kind.unweighted.isOutput || layer.kind.unweighted.isConditional) && _)
  rw [LayerKind.isOutput_unweighted, LayerKind.isConditional_unweighted]
  rfl

/-- What two layers have in common that differ in weights. -/
structure Alike (layer found : Layer) : Prop where
  id : layer.id = found.id
  name : layer.name = found.name
  inputs : layer.inputs = found.inputs
  unweighted : layer.kind.unweighted = found.kind.unweighted

namespace Alike

variable {found : Layer}

theorem isInput (alike : Alike layer found) : layer.kind.isInput = found.kind.isInput := by
  rw [← LayerKind.isInput_unweighted, alike.unweighted, LayerKind.isInput_unweighted]

theorem isConditional (alike : Alike layer found) :
    layer.kind.isConditional = found.kind.isConditional := by
  rw [← LayerKind.isConditional_unweighted, alike.unweighted, LayerKind.isConditional_unweighted]

theorem children (alike : Alike layer found) : layer.kind.children = found.kind.children := by
  rw [← LayerKind.children_unweighted, alike.unweighted, LayerKind.children_unweighted]

theorem kind (alike : Alike layer found) (notDense : found.kind.dense? = none) :
    layer.kind = found.kind :=
  LayerKind.eq_of_unweighted alike.unweighted notDense

end Alike

theorem Alike.exists_dense {found : Layer} (alike : Alike layer found) {dense : Dense}
    (isDense : found.kind = .dense dense) : ∃ own, layer.kind = .dense own := by
  have same := alike.unweighted
  rw [isDense] at same
  cases kind : layer.kind with
  | dense own => exact ⟨own, rfl⟩
  | _ =>
      rw [kind] at same
      cases same

/-- A stored layer is one of the network, but for its weights. -/
theorem Stores.exists_alike {found : Layer} (stores : network.Stores id found) :
    ∃ layer, network.layer? id = some layer ∧ Alike layer found := by
  obtain ⟨layer, isLayer, alike⟩ := stores
  have ids := congrArg Layer.id alike
  have names := congrArg Layer.name alike
  have inputs := congrArg Layer.inputs alike
  have kinds := congrArg Layer.kind alike
  exact ⟨layer, isLayer, ids.symm, names.symm, inputs.symm, kinds.symm⟩

/-- A new kind that differs from the old one in weights is no difference. -/
theorem unweighted_setKind {kind : LayerKind}
    (alike : ∀ layer, network.layer? id = some layer → layer.kind.unweighted = kind.unweighted) :
    (network.setKind id kind).unweighted = network.unweighted := by
  apply List.ext_getElem?
  intro position
  rw [getElem?_unweighted, getElem?_unweighted, setKind, layer?, Array.getElem?_modify]
  by_cases same : id = position
  · subst same
    rw [if_pos rfl, Option.map_map]
    change _ = (network.layers[id]?).map Layer.unweighted
    cases found : network.layers[id]? with
    | none => rfl
    | some layer =>
        have kinds := alike layer found
        simp [Layer.unweighted, kinds]
  · rw [if_neg same]
    rfl

end Network

end NetBlueprint
