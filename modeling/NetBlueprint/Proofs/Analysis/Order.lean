import Mathlib.Data.Fintype.EquivFin
import Mathlib.Data.List.Nodup
import NetBlueprint.Analysis.Shapes
import NetBlueprint.Proofs.Analysis.Cycle

/-!
Contract: the order of the layers is right, and it is complete exactly if there is no cycle.

`Placing` is what holds while layers are placed one by one: queued or placed are exactly the layers
whose producers are placed. When the queue has run out, a layer is placed exactly if its producers
are, so a network without cycles is placed as a whole, and no layer of a cycle ever is.

Owns: the layers that can be placed, the order of a report, and its warning about cycles.
Does not own: the shapes that are inferred in that order.
-/

namespace NetBlueprint

namespace Network

variable {network : Network} {queue placed : List LayerId} {id source target : LayerId}

/-- The producers of a layer are the layers that it is an output of. -/
theorem mem_inputsOf (wired : network.Wired) (inside : target < network.size) :
    source ∈ network.inputsOf target ↔ network.Edge source target := by
  obtain ⟨second, secondFound⟩ := exists_layer?_of_lt inside
  unfold inputsOf
  rw [secondFound]
  constructor
  · intro stored
    obtain ⟨first, firstFound⟩ := exists_layer?_of_lt (wired.inputsInRange secondFound stored)
    exact ⟨first, firstFound, (wired.mirrored firstFound secondFound).2 stored⟩
  · rintro ⟨first, firstFound, stored⟩
    exact (wired.mirrored firstFound secondFound).1 stored

/-- A layer is ready once all of its producers are placed. -/
theorem isReady_iff (wired : network.Wired) (inside : id < network.size) :
    network.isReady placed id = true ↔ ∀ source, network.Edge source id → source ∈ placed := by
  unfold isReady
  simp only [List.all_eq_true, List.contains_iff_mem, mem_inputsOf wired inside]

private theorem outputsOf_nodup (wired : network.Wired) (id : LayerId) :
    (network.outputsOf id).Nodup := by
  unfold outputsOf
  cases found : network.layer? id with
  | none => exact List.nodup_nil
  | some layer => exact wired.outputsOnce found

private theorem inputsOf_nodup (wired : network.Wired) (id : LayerId) :
    (network.inputsOf id).Nodup := by
  unfold inputsOf
  cases found : network.layer? id with
  | none => exact List.nodup_nil
  | some layer => exact wired.inputsOnce found

private theorem mem_outputsOf_iff_inputsOf (wired : network.Wired) :
    target ∈ network.outputsOf source ↔ source ∈ network.inputsOf target := by
  rw [mem_outputsOf]
  by_cases inside : target < network.size
  · exact (mem_inputsOf wired inside).symm
  · have absent : network.layer? target = none := layer?_eq_none (Nat.le_of_not_lt inside)
    refine iff_of_false (fun edge => inside (edge.target_lt wired)) ?_
    rw [inputsOf, absent]
    exact List.not_mem_nil

theorem ids_eq_range (wired : network.Wired) :
    network.layers.toList.map Layer.id = List.range network.size := by
  refine List.ext_getElem (by rw [List.length_map, List.length_range]; rfl) ?_
  intro id inside _
  rw [List.getElem_map, List.getElem_range, Array.getElem_toList]
  rw [List.length_map] at inside
  exact wired.numbered (Array.getElem?_eq_getElem inside)

/-! ## Placing layers -/

/-- Each of the placed layers stands behind its producers; the last one placed is in front. -/
structure Placing (network : Network) (budget : Nat) (queue placed : List LayerId) : Prop where
  once : (queue ++ placed).Nodup
  ready : ∀ {id}, id ∈ queue ++ placed ↔ id < network.size ∧ network.isReady placed id = true
  grounded : Grounded (fun consumer producer => network.Edge producer consumer) placed
  budgeted : budget + placed.length = network.size

namespace Placing

theorem start (network : Network) :
    network.Placing network.size
      ((List.range network.size).filter fun id => (network.inputsOf id).isEmpty) [] where
  once := by
    rw [List.append_nil]
    exact List.nodup_range.filter _
  ready := by
    intro id
    rw [List.append_nil, List.mem_filter, List.mem_range, isReady]
    cases network.inputsOf id <;> simp
  grounded := .nil
  budgeted := rfl

/-- No more layers are queued and placed than the network has. -/
theorem length_le {budget : Nat} (placing : network.Placing budget queue placed) :
    (queue ++ placed).length ≤ network.size := by
  have covered : queue ++ placed ⊆ List.range network.size :=
    fun id member => List.mem_range.2 (placing.ready.1 member).1
  have shorter := (placing.once.subperm covered).length_le
  rwa [List.length_range] at shorter

private theorem notPlaced {budget : Nat} (placing : network.Placing budget (id :: queue) placed) :
    id ∉ placed := fun member =>
  (List.nodup_append.1 placing.once).2.2 id List.mem_cons_self id member rfl

/-- A queued layer is placed, and the outputs that this makes ready are queued. -/
theorem step (wired : network.Wired) {budget : Nat}
    (placing : network.Placing (budget + 1) (id :: queue) placed) :
    network.Placing budget
      (queue ++ (network.outputsOf id).filter (network.isReady (id :: placed))) (id :: placed) := by
  have notPlaced := placing.notPlaced
  obtain ⟨once, ready, grounded, budgeted⟩ := placing
  obtain ⟨inside, isReady⟩ := ready.1 (List.mem_append_left placed List.mem_cons_self)
  have met := (isReady_iff wired inside).1 isReady
  -- An output of the layer was neither queued nor placed, because the layer itself was not placed.
  have isNew : ∀ target, network.Edge id target → target ∉ id :: queue ++ placed := by
    intro target edge member
    obtain ⟨targetInside, targetReady⟩ := ready.1 member
    exact notPlaced ((isReady_iff wired targetInside).1 targetReady id edge)
  generalize madeReady : (network.outputsOf id).filter (network.isReady (id :: placed)) = further
  have mem_further : ∀ {target}, target ∈ further ↔
      network.Edge id target ∧ network.isReady (id :: placed) target = true := by
    intro target
    rw [← madeReady, List.mem_filter, mem_outputsOf]
  have perm : (further ++ (id :: queue ++ placed)).Perm (queue ++ further ++ id :: placed) := by
    grind
  refine ⟨perm.nodup_iff.1 (List.nodup_append.2 ⟨?_, once, ?_⟩), ?_, .cons met grounded, ?_⟩
  · rw [← madeReady]
    exact (outputsOf_nodup wired id).filter _
  · rintro target member _ old rfl
    exact isNew target (mem_further.1 member).1 old
  · intro target
    rw [← perm.mem_iff, List.mem_append, mem_further, ready]
    constructor
    · rintro (⟨edge, targetReady⟩ | ⟨targetInside, targetReady⟩)
      · exact ⟨edge.target_lt wired, targetReady⟩
      · refine ⟨targetInside, (isReady_iff wired targetInside).2 fun source edge => ?_⟩
        exact List.mem_cons_of_mem id ((isReady_iff wired targetInside).1 targetReady source edge)
    · rintro ⟨targetInside, targetReady⟩
      by_cases edge : network.Edge id target
      · exact .inl ⟨edge, targetReady⟩
      · refine .inr ⟨targetInside, (isReady_iff wired targetInside).2 fun source other => ?_⟩
        have placedNow := (isReady_iff wired targetInside).1 targetReady source other
        refine (List.mem_cons.1 placedNow).resolve_left ?_
        rintro rfl
        exact edge other
  · rw [List.length_cons]
    omega

/-- Placing goes on until the queue has run out. -/
theorem settles (wired : network.Wired) : ∀ {budget : Nat} {queue placed : List LayerId},
    network.Placing budget queue placed →
      ∃ left, network.Placing left [] (network.placeLayers budget queue placed)
  | 0, queue, placed, placing => by
      have none : queue = [] := by
        have shorter := placing.length_le
        have budgeted := placing.budgeted
        rw [List.length_append] at shorter
        exact List.eq_nil_of_length_eq_zero (by omega)
      subst none
      exact ⟨0, placing⟩
  | budget + 1, [], placed, placing => ⟨budget + 1, placing⟩
  | budget + 1, id :: queue, placed, placing => by
      rw [placeLayers]
      exact settles wired (placing.step wired)

end Placing

/-- Placing layers ends with an empty queue. -/
theorem readyOrder_settled (wired : network.Wired) :
    ∃ left, network.Placing left [] network.readyOrder.reverse := by
  unfold readyOrder
  rw [List.reverse_reverse]
  exact Placing.settles wired (.start network)

/-- The layers that are placed are those whose producers are. -/
theorem mem_readyOrder_iff (wired : network.Wired) :
    id ∈ network.readyOrder ↔
      id < network.size ∧ ∀ source, network.Edge source id → source ∈ network.readyOrder := by
  obtain ⟨_, settled⟩ := readyOrder_settled wired
  have ready : id ∈ [] ++ network.readyOrder.reverse ↔ _ := settled.ready
  rw [List.nil_append, List.mem_reverse] at ready
  rw [ready]
  refine and_congr_right fun inside => ?_
  rw [isReady_iff wired inside]
  simp only [List.mem_reverse]

private theorem readyOrder_nodup (wired : network.Wired) : network.readyOrder.Nodup := by
  obtain ⟨_, settled⟩ := readyOrder_settled wired
  have once := settled.once
  rwa [List.nil_append, List.nodup_reverse] at once

/-- Whatever feeds a placed layer is placed before it. -/
theorem idxOf_readyOrder_lt (wired : network.Wired) (edge : network.Edge source target)
    (member : target ∈ network.readyOrder) :
    network.readyOrder.idxOf source < network.readyOrder.idxOf target := by
  obtain ⟨_, settled⟩ := readyOrder_settled wired
  have before := settled.grounded.idxOf_reverse_lt (List.nodup_reverse.2 (readyOrder_nodup wired))
    (List.mem_reverse.2 member) edge
  rwa [List.reverse_reverse] at before

/-! ## Counting producers -/

/-- How many producers of a layer are still to be placed. -/
def pending (network : Network) (placed : List LayerId) (id : LayerId) : Nat :=
  (network.inputsOf id).countP fun producer => !placed.contains producer

/-- Counts the outputs of a layer down, one after the other, and queues those that come to zero. -/
def countDown : List LayerId → (LayerId → Nat) → List LayerId → (LayerId → Nat) × List LayerId
  | [], counts, queue => (counts, queue)
  | target :: rest, counts, queue =>
    let left := counts target - 1
    countDown rest (fun id => if id = target then left else counts id)
      (if left = 0 then queue ++ [target] else queue)

def placeCounting (network : Network) :
    Nat → List LayerId → (LayerId → Nat) → List LayerId → List LayerId
  | 0, _, _, placed => placed
  | _ + 1, [], _, placed => placed
  | budget + 1, id :: queue, counts, placed =>
    let (further, longer) := countDown (network.outputsOf id) counts queue
    placeCounting network budget longer further (id :: placed)

/-- Counting down one after the other is counting down all at once, as long as the outputs differ.
-/
theorem countDown_eq : ∀ {outputs : List LayerId}, outputs.Nodup → ∀ counts queue,
    countDown outputs counts queue =
      (fun id => if id ∈ outputs then counts id - 1 else counts id,
        queue ++ outputs.filter fun id => counts id - 1 = 0)
  | [], _, counts, queue => by simp [countDown]
  | target :: rest, nodup, counts, queue => by
      obtain ⟨notLater, nodup⟩ := List.nodup_cons.1 nodup
      have others : ∀ id ∈ rest, id ≠ target := fun id member same => notLater (same ▸ member)
      rw [countDown, countDown_eq nodup]
      refine Prod.ext (funext fun id => ?_) ?_
      · by_cases same : id = target
        · subst same
          simp [notLater]
        · simp [same]
      · have kept : (rest.filter fun id =>
            (if id = target then counts target - 1 else counts id) - 1 = 0) =
              rest.filter fun id => counts id - 1 = 0 :=
          List.filter_congr fun id member => by simp [others id member]
        simp only [kept, List.filter_cons]
        by_cases zero : counts target - 1 = 0 <;> simp [zero]

private theorem isReady_eq_pending (placed : List LayerId) (id : LayerId) :
    network.isReady placed id = decide (network.pending placed id = 0) := by
  rw [Bool.eq_iff_iff, decide_eq_true_iff, isReady, pending, List.countP_eq_zero]
  simp

/-- One more layer placed takes one off the count of each of its outputs. -/
theorem pending_cons (wired : network.Wired) (notPlaced : id ∉ placed) (target : LayerId) :
    network.pending (id :: placed) target =
      if target ∈ network.outputsOf id then network.pending placed target - 1
      else network.pending placed target := by
  have split : network.pending (id :: placed) target =
      ((network.inputsOf target).erase id).countP fun producer => !placed.contains producer := by
    rw [(inputsOf_nodup wired target).erase_eq_filter, List.countP_filter, pending]
    refine List.countP_congr fun producer _ => ?_
    simp [and_comm]
  have feeds : target ∈ network.outputsOf id ↔ id ∈ network.inputsOf target :=
    mem_outputsOf_iff_inputsOf wired
  rw [split, List.countP_erase, pending]
  by_cases stored : id ∈ network.inputsOf target <;> simp [feeds, stored, notPlaced]

/-- Counting the producers that are left places the same layers in the same order. -/
theorem placeCounting_eq (wired : network.Wired) : ∀ {budget : Nat} {queue placed : List LayerId},
    network.Placing budget queue placed →
      network.placeCounting budget queue (network.pending placed) placed =
        network.placeLayers budget queue placed
  | 0, _, _, _ => rfl
  | _ + 1, [], _, _ => rfl
  | budget + 1, id :: queue, placed, placing => by
      have notPlaced := placing.notPlaced
      have counts : (fun target => if target ∈ network.outputsOf id
          then network.pending placed target - 1 else network.pending placed target) =
            network.pending (id :: placed) :=
        funext fun target => (pending_cons wired notPlaced target).symm
      have madeReady : (network.outputsOf id).filter (fun target =>
          network.pending placed target - 1 = 0) =
            (network.outputsOf id).filter (network.isReady (id :: placed)) :=
        List.filter_congr fun target member => by
          rw [isReady_eq_pending, pending_cons wired notPlaced, if_pos member]
      rw [placeCounting, placeLayers, countDown_eq (outputsOf_nodup wired id)]
      simp only [counts, madeReady]
      exact placeCounting_eq wired (placing.step wired)

/-- The order of the layers that can be placed is the one that counting producers gives. -/
theorem readyOrder_eq_counting (wired : network.Wired) :
    network.readyOrder = (network.placeCounting network.size
      ((List.range network.size).filter fun id => (network.inputsOf id).isEmpty)
      (fun id => (network.inputsOf id).length) []).reverse := by
  have counts : network.pending [] = fun id => (network.inputsOf id).length :=
    funext fun id => by simp [pending]
  rw [readyOrder, ← placeCounting_eq wired (.start network), counts]

/-! ## Cycles -/

/-- A network without cycles is placed as a whole: what leads to a layer is placed by induction. -/
theorem mem_readyOrder_of_acyclic (wired : network.Wired) (acyclic : network.Acyclic)
    (inside : id < network.size) : id ∈ network.readyOrder := by
  let before : Fin network.size → Fin network.size → Prop :=
    fun source target => Relation.TransGen network.Edge source target
  have transitive : IsTrans _ before := ⟨fun _ _ _ => .trans⟩
  have irreflexive : Std.Irrefl before := ⟨fun source => acyclic source⟩
  have wellFounded : WellFounded before := Finite.wellFounded_of_trans_of_irrefl before
  have placed : ∀ target : Fin network.size, target.val ∈ network.readyOrder := by
    intro target
    induction target using wellFounded.induction with
    | h target inductionHypothesis =>
        refine (mem_readyOrder_iff wired).2 ⟨target.isLt, fun source edge => ?_⟩
        exact inductionHypothesis ⟨source, edge.source_lt⟩ (.single edge)
  exact placed ⟨id, inside⟩

/-- No layer that leads back to itself is placed. -/
theorem acyclic_of_mem_readyOrder (wired : network.Wired)
    (covers : ∀ id < network.size, id ∈ network.readyOrder) : network.Acyclic := by
  obtain ⟨_, settled⟩ := readyOrder_settled wired
  intro id loops
  obtain ⟨_, edge, _⟩ := Relation.TransGen.head'_iff.1 loops
  refine settled.grounded.not_transGen_self (List.mem_reverse.2 (covers id edge.source_lt)) ?_
  exact Relation.transGen_swap.2 loops

/-- All layers are placed exactly if the network has no cycle. -/
theorem length_readyOrder_iff (wired : network.Wired) :
    network.readyOrder.length = network.size ↔ network.Acyclic := by
  have covered : network.readyOrder ⊆ List.range network.size :=
    fun id member => List.mem_range.2 ((mem_readyOrder_iff wired).1 member).1
  have subperm := (readyOrder_nodup wired).subperm covered
  constructor
  · intro whole
    have perm := subperm.perm_of_length_le (by rw [List.length_range, whole])
    exact acyclic_of_mem_readyOrder wired fun id inside => perm.mem_iff.2 (List.mem_range.2 inside)
  · intro acyclic
    have covers : List.range network.size ⊆ network.readyOrder :=
      fun id member => mem_readyOrder_of_acyclic wired acyclic (List.mem_range.1 member)
    have longer := (List.nodup_range.subperm covers).length_le
    have shorter := subperm.length_le
    rw [List.length_range] at longer shorter
    omega

/-! ## The report -/

/-- The order holds every layer once. -/
theorem layerOrder_perm (wired : network.Wired) :
    network.layerOrder.Perm (List.range network.size) := by
  unfold layerOrder
  refine (List.perm_ext_iff_of_nodup ?_ List.nodup_range).2 fun id => ?_
  · refine List.nodup_append.2 ⟨readyOrder_nodup wired, List.nodup_range.filter _, ?_⟩
    rintro id member _ other rfl
    simp [member] at other
  · have covered : id ∈ network.readyOrder → id < network.size :=
      fun member => ((mem_readyOrder_iff wired).1 member).1
    simp only [List.mem_append, List.mem_filter, List.mem_range, Bool.not_eq_true',
      List.contains_eq_mem, decide_eq_false_iff_not]
    grind

/-- The words that the warning about layers outside the order starts with. -/
def coversWords : List Char := "topological order covers".toList

private theorem not_coversWords_of_shapeWarning {shapes : ShapeTable} {layer : Layer}
    {warning : String}
    (warned : shapeWarning? shapes layer = some warning) : ¬ coversWords <+: warning.toList := by
  intro starts
  obtain ⟨rest, spelled⟩ := starts
  have first : warning.toList.head? = some 't' := by
    rw [← spelled]
    rfl
  unfold shapeWarning? at warned
  split at warned
  · cases warned
  · split at warned
    all_goals
      rw [← Option.some.inj warned] at first
      simp [*, LayerKind.name, String.toList_append, toString] at first

/-- A warning tells of layers outside the order exactly if some layer cannot be placed. -/
theorem coversWarning_iff (options : ShapeOptions) :
    (∃ warning ∈ (network.analyze options).warnings, coversWords <+: warning.toList) ↔
      network.readyOrder.length ≠ network.size := by
  have warnings : ∃ shapes, (network.analyze options).warnings =
      network.orderWarnings ++ network.layers.toList.filterMap (shapeWarning? shapes) := ⟨_, rfl⟩
  obtain ⟨shapes, warnings⟩ := warnings
  rw [warnings]
  unfold orderWarnings
  constructor
  · rintro ⟨warning, member, starts⟩ whole
    rw [if_pos whole, List.nil_append] at member
    obtain ⟨layer, _, warned⟩ := List.mem_filterMap.1 member
    exact not_coversWords_of_shapeWarning warned starts
  · intro incomplete
    rw [if_neg incomplete]
    refine ⟨_, List.mem_append_left _ (List.mem_singleton_self _), ?_⟩
    simp only [String.toList_append, List.append_assoc]
    have starts : coversWords <+: "topological order covers ".toList := by decide
    exact List.prefix_append_of_prefix starts

/-- The order of a report has every layer once, it warns that it is incomplete exactly if there is a
cycle, and what feeds a layer that was placed in its turn stands before it. -/
theorem analyze_order_exact (built : network.Built) (options : ShapeOptions) :
    (network.analyze options).order.Perm (network.layers.toList.map Layer.id) ∧
      ((∃ warning ∈ (network.analyze options).warnings, coversWords <+: warning.toList) ↔
        ∃ cycle, network.findCycle = some cycle) ∧
      ∀ source target, network.Edge source target → target ∈ network.readyOrder →
        (network.analyze options).order.idxOf source <
          (network.analyze options).order.idxOf target := by
  have wired := built.wired
  refine ⟨?_, ?_, ?_⟩
  · rw [ids_eq_range wired]
    exact layerOrder_perm wired
  · rw [coversWarning_iff, ← Option.ne_none_iff_exists', ne_eq, ne_eq, length_readyOrder_iff wired,
      findCycle_eq_none_iff wired]
  · intro source target edge member
    have feeds := ((mem_readyOrder_iff wired).1 member).2 source edge
    show network.layerOrder.idxOf source < network.layerOrder.idxOf target
    unfold layerOrder
    rw [List.idxOf_append_of_mem feeds, List.idxOf_append_of_mem member]
    exact idxOf_readyOrder_lt wired edge member

private def selfLoop : Network :=
  let layers := ((empty "loop").addLayer "first" (.norm none)).addLayer "second" (.norm none)
  let layers := (layers.addLayer "third" (.norm none)).addLayer "fourth" (.norm none)
  ((layers.addEdge 0 1).addEdge 2 2).addEdge 2 3

private theorem built_selfLoop : selfLoop.Built := by
  have layers := Built.addLayer "third" (.norm none)
    (.addLayer "second" (.norm none) (.addLayer "first" (.norm none) (.empty "loop")))
  have first := (layers.addLayer "fourth" (.norm none)).addEdge
    (by decide : 0 < 4) (by decide : 1 < 4) rfl
  have second := first.addEdge (by decide : 2 < 4) (by decide : 2 < 4) rfl
  exact second.addEdge (by decide : 2 < 4) (by decide : 3 < 4) rfl

theorem analyze_order_exact_selfLoop :
    selfLoop.Built ∧ (selfLoop.analyze .standard).order = [0, 1, 2, 3] ∧
      (∃ warning ∈ (selfLoop.analyze .standard).warnings, coversWords <+: warning.toList) ∧
      selfLoop.Edge 0 1 ∧ 1 ∈ selfLoop.readyOrder ∧
      (selfLoop.analyze .standard).order.idxOf 0 < (selfLoop.analyze .standard).order.idxOf 1 := by
  obtain ⟨_, warnedIff, before⟩ := analyze_order_exact built_selfLoop .standard
  have edge : selfLoop.Edge 0 1 := hasEdge_iff.1 rfl
  have placed : 1 ∈ selfLoop.readyOrder := by decide
  exact ⟨built_selfLoop, rfl, warnedIff.2 ⟨[2, 2], rfl⟩, edge, placed, before 0 1 edge placed⟩

end Network

end NetBlueprint
