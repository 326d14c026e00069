import NetBlueprint.Analysis.Validation
import NetBlueprint.Proofs.Analysis.Converging
import NetBlueprint.Proofs.Graph.Allocation

/-!
Contract: what the errors of a shape analysis say about its shapes.

Allocations and declarations of shape-keeping layers are checked on the final shapes. An output is
compared with what arrives in every pass, and once it is found at odds it stays recorded. Without
cycles its producers are visited before it, so each pass judges an output by the shapes that the
pass ends with. The last pass therefore misses no output that is at odds in the end, but a recorded
output may be at odds after an earlier pass only.

Owns: outputs at odds, the outputs that are recorded, and the messages about them.
Does not own: which shapes are inferred.
-/

namespace NetBlueprint

namespace Layer

/-- The first shape that arrives at an output does not fit the one that the output declares. -/
structure Clashes (layer : Layer) (shapes : ShapeTable) (arriving declared : Shape) : Prop where
  isOutput : layer.kind.isOutput = true
  declares : layer.kind.declaredShape = some declared
  receives : layer.incoming shapes = some arriving
  differs : arriving.compatible declared = false

/-- An output receives first what does not fit its declaration. -/
def AtOdds (layer : Layer) (shapes : ShapeTable) : Prop :=
  ∃ arriving declared, layer.Clashes shapes arriving declared

def clashText (layer : Layer) (arriving declared : Shape) : String :=
  s!"output '{layer.name}' receives {arriving.render} but declares {declared.render}"

variable {layer : Layer} {shapes first second : ShapeTable} {contract : OutputContract}
  {arriving declared : Shape}

private theorem thinMismatch?_eq_some_iff :
    layer.thinMismatch? contract shapes = some (arriving, declared) ↔
      contract = .thin ∧ layer.Clashes shapes arriving declared := by
  constructor
  · intro found
    unfold thinMismatch? at found
    split at found
    · rename_i judged
      obtain ⟨isThin, isOutput⟩ := Bool.and_eq_true_iff.1 judged
      split at found
      · rename_i declares receives
        split at found
        · cases found
        · rename_i differs
          cases found
          exact ⟨of_decide_eq_true isThin, isOutput, declares, receives,
            Bool.eq_false_iff.2 differs⟩
      · cases found
    · cases found
  · rintro ⟨rfl, isOutput, declares, receives, differs⟩
    simp [thinMismatch?, isOutput, declares, receives, differs]

theorem Clashes.congr (clashes : layer.Clashes first arriving declared)
    (alike : layer.incoming second = layer.incoming first) :
    layer.Clashes second arriving declared :=
  ⟨clashes.isOutput, clashes.declares, alike.trans clashes.receives, clashes.differs⟩

end Layer

namespace Network

/-- A message says that an output is at odds with what arrives. -/
def Reports (network : Network) (shapes : ShapeTable) (id : LayerId) (message : String) : Prop :=
  ∃ layer arriving declared, network.layer? id = some layer ∧
    layer.Clashes shapes arriving declared ∧ message = layer.clashText arriving declared

end Network

namespace Propagation

/-- On the way from a state to a later one outputs are recorded, each once and with one message. -/
def Records (judged : LayerId → String → Prop) (earlier later : Propagation) : Prop :=
  ∃ ids messages, later.flagged.reverse = earlier.flagged.reverse ++ ids ∧
    later.errors = earlier.errors ++ messages ∧ List.Forall₂ judged ids messages ∧
    (earlier.flagged.Nodup → later.flagged.Nodup)

namespace Records

variable {judged weaker : LayerId → String → Prop} {first second third : Propagation}

theorem of_same (flagged : second.flagged = first.flagged) (errors : second.errors = first.errors) :
    Records judged first second :=
  ⟨[], [], by rw [flagged, List.append_nil], by rw [errors, List.append_nil], .nil,
    fun once => flagged ▸ once⟩

private theorem of_one {id : LayerId} {message : String} (judges : judged id message)
    (unrecorded : id ∉ first.flagged) (flagged : second.flagged = id :: first.flagged)
    (errors : second.errors = first.errors ++ [message]) : Records judged first second :=
  ⟨[id], [message], by rw [flagged, List.reverse_cons], errors, .cons judges .nil,
    fun once => flagged ▸ List.nodup_cons.2 ⟨unrecorded, once⟩⟩

theorem trans (earlier : Records judged first second) (later : Records judged second third) :
    Records judged first third := by
  obtain ⟨ids, messages, flagged, errors, judges, once⟩ := earlier
  obtain ⟨moreIds, moreMessages, moreFlagged, moreErrors, judgesMore, onceMore⟩ := later
  refine ⟨ids ++ moreIds, messages ++ moreMessages, ?_, ?_, List.rel_append judges judgesMore,
    onceMore ∘ once⟩
  · rw [moreFlagged, flagged, List.append_assoc]
  · rw [moreErrors, errors, List.append_assoc]

theorem imp (records : Records judged first second)
    (implied : ∀ id message, judged id message → weaker id message) :
    Records weaker first second := by
  obtain ⟨ids, messages, flagged, errors, judges, once⟩ := records
  exact ⟨ids, messages, flagged, errors, judges.imp implied, once⟩

theorem subset (records : Records judged first second) : first.flagged ⊆ second.flagged := by
  obtain ⟨ids, _, flagged, _⟩ := records
  intro id member
  rw [← List.mem_reverse, flagged]
  exact List.mem_append_left ids (List.mem_reverse.2 member)

end Records

variable {network : Network} {contract : OutputContract} {state : Propagation}
  {order before behind : List LayerId} {id : LayerId} {layer : Layer}

/-! ## Recording -/

/-- An output is recorded when it is found at odds for the first time. -/
theorem flag_cases (contract : OutputContract) (state : Propagation) (layer : Layer) :
    flag contract state layer = state ∧
        (contract = .thin → layer.AtOdds state.shapes → layer.id ∈ state.flagged) ∨
      ∃ arriving declared, layer.Clashes state.shapes arriving declared ∧
        layer.id ∉ state.flagged ∧
        (flag contract state layer).flagged = layer.id :: state.flagged ∧
        (flag contract state layer).errors =
          state.errors ++ [layer.clashText arriving declared] := by
  unfold flag
  cases found : layer.thinMismatch? contract state.shapes with
  | none =>
      refine .inl ⟨rfl, fun isThin atOdds => ?_⟩
      obtain ⟨arriving, declared, clashes⟩ := atOdds
      rw [Layer.thinMismatch?_eq_some_iff.2 ⟨isThin, clashes⟩] at found
      cases found
  | some shapes =>
      obtain ⟨arriving, declared⟩ := shapes
      simp only
      split
      · rename_i recorded
        exact .inl ⟨rfl, fun _ _ => List.contains_iff_mem.1 recorded⟩
      · rename_i unrecorded
        obtain ⟨_, clashes⟩ := Layer.thinMismatch?_eq_some_iff.1 found
        exact .inr ⟨arriving, declared, clashes, mt List.contains_iff_mem.2 unrecorded, rfl, rfl⟩

private theorem flagged_store (state : Propagation) (layer : Layer) :
    (state.store layer).flagged = state.flagged := by
  unfold store
  repeat' split
  all_goals rfl

private theorem errors_store (state : Propagation) (layer : Layer) :
    (state.store layer).errors = state.errors := by
  unfold store
  repeat' split
  all_goals rfl

/-- A visit records its own layer or nothing. -/
theorem records_visit (wired : network.Wired) (contract : OutputContract) (state : Propagation)
    (id : LayerId) :
    Records (fun recorded message => recorded = id ∧ network.Reports state.shapes id message) state
      (visit network contract state id) := by
  cases found : network.layer? id with
  | none =>
      rw [visit_of_absent found]
      exact .of_same rfl rfl
  | some layer =>
      have numbered := wired.numbered found
      rw [visit_of_found found]
      rcases flag_cases contract state layer with
        ⟨same, _⟩ | ⟨arriving, declared, clashes, unrecorded, flagged, errors⟩
      · rw [same]
        exact .of_same (flagged_store state layer) (errors_store state layer)
      · rw [numbered] at unrecorded flagged
        exact .of_one ⟨rfl, layer, arriving, declared, found, clashes, rfl⟩ unrecorded
          ((flagged_store ..).trans flagged) ((errors_store ..).trans errors)

private theorem mem_flagged_visit (wired : network.Wired) (found : network.layer? id = some layer)
    (atOdds : layer.AtOdds state.shapes) : id ∈ (visit network .thin state id).flagged := by
  have numbered := wired.numbered found
  rw [visit_of_found found, flagged_store]
  rcases flag_cases .thin state layer with ⟨same, recorded⟩ | ⟨_, _, _, _, flagged, _⟩
  · rw [same, ← numbered]
    exact recorded rfl atOdds
  · rw [flagged, numbered]
    exact List.mem_cons_self

/-- Visits one after the other record layers of the order, each by the shapes that its visit
meets. -/
theorem records_visits (wired : network.Wired) (contract : OutputContract) (state : Propagation)
    (order : List LayerId) :
    Records (fun id message => ∃ before behind, order = before ++ id :: behind ∧
        network.Reports (before.foldl (visit network contract) state).shapes id message) state
      (order.foldl (visit network contract) state) := by
  induction order generalizing state with
  | nil => exact .of_same rfl rfl
  | cons first rest inductionHypothesis =>
      refine .trans ((records_visit wired contract state first).imp ?_)
        ((inductionHypothesis (visit network contract state first)).imp ?_)
      · rintro _ message ⟨rfl, reports⟩
        exact ⟨[], rest, rfl, reports⟩
      · rintro id message ⟨before, behind, rfl, reports⟩
        exact ⟨first :: before, behind, rfl, reports⟩

/-! ## Passes and runs -/

/-- When a pass comes to a layer, its producers have the shapes that they keep to the end of the
pass. -/
theorem incoming_of_split (wired : network.Wired) (acyclic : network.Acyclic)
    (supports : network.Supports state.shapes) (found : network.layer? id = some layer)
    (split : network.layerOrder = before ++ id :: behind) :
    layer.incoming (before.foldl (visit network contract) state).shapes =
      layer.incoming (network.layerOrder.foldl (visit network contract) state).shapes := by
  have grounded := Network.grounded_layerOrder wired acyclic
  have nodup : network.layerOrder.Nodup :=
    (Network.layerOrder_perm wired).nodup_iff.2 List.nodup_range
  rw [split, List.reverse_append, List.reverse_cons, List.append_assoc] at grounded
  rw [split] at nodup
  rw [split, List.foldl_append]
  refine Layer.incoming_congr fun producer stored => ?_
  have edge : network.Edge producer id := by
    refine (Network.mem_inputsOf wired (Network.lt_size_of_layer? found)).1 ?_
    rwa [Network.inputsOf, found]
  -- The producer stands before the layer, and only there.
  have earlier : producer ∈ before := by
    cases grounded.of_append with
    | cons met _ => exact List.mem_reverse.1 (met producer edge)
  have notLater : producer ∉ id :: behind := fun later =>
    (List.nodup_append.1 nodup).2.2 producer earlier producer later rfl
  exact (known_visits_of_notMem wired (supports_visits wired supports before) notLater).symm

/-- What a pass records is at odds when it ends. -/
theorem records_pass (wired : network.Wired) (acyclic : network.Acyclic)
    (supports : network.Supports state.shapes) (contract : OutputContract) :
    Records (network.Reports (pass network contract network.layerOrder state).shapes) state
      (pass network contract network.layerOrder state) := by
  refine (records_visits wired contract (unmarked state) network.layerOrder).imp ?_
  rintro id message ⟨before, behind, split, layer, arriving, declared, found, clashes, text⟩
  have final := clashes.congr
    (incoming_of_split wired acyclic supports.unmarked found split).symm
  exact ⟨layer, arriving, declared, found, final, text⟩

/-- An output that is at odds when a pass ends is recorded. -/
theorem mem_flagged_pass (wired : network.Wired) (acyclic : network.Acyclic)
    (supports : network.Supports state.shapes) (found : network.layer? id = some layer)
    (atOdds : layer.AtOdds (pass network .thin network.layerOrder state).shapes) :
    id ∈ (pass network .thin network.layerOrder state).flagged := by
  have inside := Network.lt_size_of_layer? found
  obtain ⟨before, behind, split⟩ := List.mem_iff_append.1 ((Network.mem_layerOrder wired).2 inside)
  obtain ⟨arriving, declared, clashes⟩ := atOdds
  have met := clashes.congr (incoming_of_split wired acyclic supports.unmarked found split)
  have recorded := mem_flagged_visit wired found ⟨arriving, declared, met⟩
  have kept := (records_visits wired .thin _ behind).subset recorded
  rw [pass, split, List.foldl_append]
  exact kept

theorem run_succ (network : Network) (contract : OutputContract) (order : List LayerId)
    (budget : Nat) (state : Propagation) :
    (run network contract order (budget + 1) state).1 =
      if (pass network contract order state).changed then
        (run network contract order budget (pass network contract order state)).1
      else pass network contract order state := by
  rw [run]
  split <;> rfl

/-- What a run records was at odds after as many passes as some shorter run makes. -/
theorem records_run (wired : network.Wired) (acyclic : network.Acyclic)
    (contract : OutputContract) :
    ∀ (budget : Nat) {state : Propagation}, network.Supports state.shapes →
      Records (fun id message => ∃ passes, 1 ≤ passes ∧ passes ≤ budget ∧ network.Reports
          (run network contract network.layerOrder passes state).1.shapes id message)
        state (run network contract network.layerOrder budget state).1
  | 0, _, _ => .of_same rfl rfl
  | budget + 1, state, supports => by
      have first := records_pass wired acyclic supports contract
      have once : (run network contract network.layerOrder 1 state).1 =
          pass network contract network.layerOrder state := by
        rw [run_succ]
        split <;> rfl
      rw [run_succ]
      split
      · rename_i changed
        have rest := records_run wired acyclic contract budget
          (supports_pass wired supports contract network.layerOrder)
        refine .trans (first.imp fun id message reports => ?_) (rest.imp ?_)
        · exact ⟨1, Nat.le_refl 1, Nat.le_add_left 1 budget, once ▸ reports⟩
        · rintro id message ⟨passes, least, within, reports⟩
          refine ⟨passes + 1, Nat.le_add_left 1 passes, Nat.succ_le_succ within, ?_⟩
          rwa [run_succ, if_pos changed]
      · refine first.imp fun id message reports => ?_
        exact ⟨1, Nat.le_refl 1, Nat.le_add_left 1 budget, once ▸ reports⟩

/-- An output that is at odds after some number of passes is recorded by every longer run. -/
theorem mem_flagged_run (wired : network.Wired) (acyclic : network.Acyclic)
    (found : network.layer? id = some layer) :
    ∀ {passes budget : Nat} {state : Propagation}, network.Supports state.shapes → 1 ≤ passes →
      passes ≤ budget →
      layer.AtOdds (run network .thin network.layerOrder passes state).1.shapes →
      id ∈ (run network .thin network.layerOrder budget state).1.flagged
  | passes + 1, budget + 1, state, supports, _, within, atOdds => by
      rw [run_succ] at atOdds ⊢
      by_cases changed : (pass network .thin network.layerOrder state).changed = true
      · rw [if_pos changed] at atOdds ⊢
        have supportsAfter := supports_pass wired supports .thin network.layerOrder
        rcases Nat.eq_zero_or_pos passes with rfl | least
        · have recorded := mem_flagged_pass wired acyclic supports found atOdds
          exact (records_run wired acyclic .thin budget supportsAfter).subset recorded
        · exact mem_flagged_run wired acyclic found supportsAfter least
            (Nat.le_of_succ_le_succ within) atOdds
      · rw [if_neg changed] at atOdds ⊢
        exact mem_flagged_pass wired acyclic supports found atOdds

end Propagation

namespace Network

open Propagation

variable {network : Network} {options : ShapeOptions}

/-- The outputs that an analysis finds at odds with what arrives, in the order of their messages. -/
def mismatched (network : Network) (options : ShapeOptions) : List LayerId :=
  (network.propagation options).1.flagged.reverse

/-- The errors of an analysis that its final shapes have by themselves. -/
def shapeErrors (network : Network) (shapes : ShapeTable) : List String :=
  network.layers.toList.flatMap (network.edgeErrorsOf shapes) ++
    network.layers.toList.filterMap (allocationError? shapes)

/-- An analysis has the errors of its propagation and those that its final shapes have by
themselves. -/
theorem errors_analyze (network : Network) (options : ShapeOptions) :
    (network.analyze options).errors =
      (network.propagation options).1.errors ++
        network.shapeErrors (network.analyze options).shapes :=
  List.append_assoc _ _ _

/-- Before its own errors an analysis has a message for each mismatched output: after some number of
passes the output was at odds. -/
theorem mismatched_reports (wired : network.Wired) (acyclic : network.Acyclic)
    (options : ShapeOptions) :
    (network.mismatched options).Nodup ∧
      ∃ messages,
        List.Forall₂ (fun id message => ∃ passes, 1 ≤ passes ∧ passes ≤ options.maxPasses ∧
          network.Reports (network.analyze ⟨passes, options.contract⟩).shapes id message)
          (network.mismatched options) messages ∧
        (network.analyze options).errors =
          messages ++ network.shapeErrors (network.analyze options).shapes := by
  obtain ⟨ids, messages, flagged, errors, judged, once⟩ :=
    records_run wired acyclic options.contract options.maxPasses (supports_start network)
  have noneYet : (start network).flagged.reverse = [] := rfl
  rw [noneYet, List.nil_append] at flagged
  refine ⟨List.nodup_reverse.2 (once List.nodup_nil), messages, ?_, ?_⟩
  · rw [mismatched, propagation, flagged]
    exact judged
  · rw [errors_analyze, propagation, errors]
    rfl

/-- An output is mismatched exactly if it was at odds after some number of passes. -/
theorem mem_mismatched_iff (wired : network.Wired) (acyclic : network.Acyclic) {maxPasses : Nat}
    {id : LayerId} {layer : Layer} (found : network.layer? id = some layer) :
    id ∈ network.mismatched ⟨maxPasses, .thin⟩ ↔
      ∃ passes, 1 ≤ passes ∧ passes ≤ maxPasses ∧
        layer.AtOdds (network.analyze ⟨passes, .thin⟩).shapes := by
  constructor
  · obtain ⟨_, messages, judged, _⟩ := mismatched_reports wired acyclic ⟨maxPasses, .thin⟩
    have each : ∀ recorded ∈ network.mismatched ⟨maxPasses, .thin⟩, ∃ passes, 1 ≤ passes ∧
        passes ≤ maxPasses ∧ ∃ message,
          network.Reports (network.analyze ⟨passes, .thin⟩).shapes recorded message :=
      ((List.forall₂_and_left _ _).1 (judged.imp fun _ message reported =>
        ⟨reported.imp fun _ holds => ⟨holds.1, holds.2.1, message, holds.2.2⟩, reported⟩)).1
    intro member
    obtain ⟨passes, least, within, _, same, arriving, declared, sameFound, clashes, _⟩ :=
      each id member
    rw [found] at sameFound
    cases sameFound
    exact ⟨passes, least, within, arriving, declared, clashes⟩
  · rintro ⟨passes, least, within, atOdds⟩
    refine List.mem_reverse.2 ?_
    exact mem_flagged_run wired acyclic found (supports_start network) least within atOdds

/-- What is upstream of an output in order arrives in the same shapes after every pass. -/
theorem incoming_of_inOrder (wired : network.Wired) {id : LayerId} {layer : Layer}
    (found : network.layer? id = some layer)
    (inOrder : network.InOrder (Relation.ReflTransGen network.ShapeNeeds id))
    {contract : OutputContract} {first second : Nat} (least : 1 ≤ first) (leastToo : 1 ≤ second) :
    layer.incoming (network.analyze ⟨first, contract⟩).shapes =
      layer.incoming (network.analyze ⟨second, contract⟩).shapes := by
  refine Layer.incoming_congr fun producer stored => ?_
  have upstream : Relation.ReflTransGen network.ShapeNeeds id producer :=
    .single ⟨layer, found, List.mem_append_left _ (List.mem_append_left _ stored)⟩
  have afterFirst : ∀ passes, 1 ≤ passes →
      (network.analyze ⟨passes, contract⟩).shapes.known producer =
        (pass network contract network.layerOrder (start network)).shapes.known producer := by
    rintro (_ | budget) least
    · cases least
    · exact known_run_of_inOrder wired (supports_start network) .tail inOrder upstream budget
  rw [afterFirst first least, afterFirst second leastToo]

/-! ## Results -/

/-- What validation promises of the shapes of an analysis. -/
structure ShapesFit (network : Network) (contract : OutputContract) (shapes : ShapeTable) :
    Prop where
  allocatable : ∀ {id shape}, shapes.known id = some shape → shape.IsAllocatable
  kept : ∀ {id layer declared producer produced}, network.layer? id = some layer →
    layer.kind.keepsShape = true → layer.kind.declaredShape = some declared →
    producer ∈ layer.inputs → shapes.known producer = some produced →
    produced.compatible declared = true
  received : contract = .thin → ∀ {id layer declared arriving}, network.layer? id = some layer →
    layer.kind.isOutput = true → layer.kind.declaredShape = some declared →
    layer.incoming shapes = some arriving → arriving.compatible declared = true

/-- Without errors every known shape can be allocated. -/
theorem isAllocatable_of_noErrors (wired : network.Wired) {shapes : ShapeTable} {id : LayerId}
    {shape : Shape} (sized : shapes.size = network.size)
    (noErrors : network.shapeErrors shapes = []) (known : shapes.known id = some shape) :
    shape.IsAllocatable := by
  rcases Nat.lt_or_ge id network.size with inside | outside
  · obtain ⟨layer, found⟩ := exists_layer?_of_lt inside
    have noError : allocationError? shapes layer = none :=
      List.filterMap_eq_nil_iff.1 (List.append_eq_nil_iff.1 noErrors).2 layer (mem_layers found)
    unfold allocationError? at noError
    rw [wired.numbered found, known] at noError
    cases counted : shape.elements? with
    | none =>
        simp only [counted] at noError
        cases noError
    | some count => exact (Shape.elements?_eq_some.1 counted).1
  · rw [ShapeTable.known_of_size_le (sized.trans_le outside)] at known
    cases known

private theorem compatible_of_noErrors {shapes : ShapeTable} {id producer : LayerId} {layer : Layer}
    {declared produced : Shape} (noErrors : network.shapeErrors shapes = [])
    (found : network.layer? id = some layer) (keeps : layer.kind.keepsShape = true)
    (declares : layer.kind.declaredShape = some declared) (stored : producer ∈ layer.inputs)
    (known : shapes.known producer = some produced) : produced.compatible declared = true := by
  have noError : network.edgeErrorsOf shapes layer = [] :=
    List.flatMap_eq_nil_iff.1 (List.append_eq_nil_iff.1 noErrors).1 layer (mem_layers found)
  unfold edgeErrorsOf at noError
  rw [if_pos keeps, declares] at noError
  have noneHere := List.filterMap_eq_nil_iff.1 noError producer stored
  rw [known] at noneHere
  simp only at noneHere
  split at noneHere
  · assumption
  · cases noneHere

/-- A network that is valid at the level of shapes has no cycle and no error of the analysis. -/
theorem checks_of_validate {options : ShapeOptions}
    (valid : network.validate options .shapes = .ok ()) :
    network.findCycle = none ∧ (network.analyze options).errors = [] := by
  unfold validate checkCycles at valid
  cases cycles : network.findCycle with
  | some cycle =>
      rw [cycles] at valid
      cases valid
  | none =>
      rw [cycles] at valid
      refine ⟨rfl, List.isEmpty_iff.1 ?_⟩
      by_contra hasErrors
      have notValid : ¬ (network.analyze options).isValid = true := hasErrors
      simp only [checkShapes, if_neg notValid] at valid
      cases valid

/-- Passing validation of the shapes means that the shapes of the report fit. -/
theorem validate_shapes_sound (built : network.Built) {options : ShapeOptions}
    (passes : 1 ≤ options.maxPasses) (valid : network.validate options .shapes = .ok ()) :
    network.ShapesFit options.contract (network.analyze options).shapes := by
  have wired := built.wired
  obtain ⟨noCycle, noErrors⟩ := checks_of_validate valid
  have acyclic := (findCycle_eq_none_iff wired).1 noCycle
  obtain ⟨_, messages, judged, errors⟩ := mismatched_reports wired acyclic options
  rw [noErrors, eq_comm, List.append_eq_nil_iff] at errors
  obtain ⟨noMessages, noShapeErrors⟩ := errors
  have sized := (supports_analyze wired options).sized
  exact {
    allocatable := isAllocatable_of_noErrors wired sized noShapeErrors
    kept := compatible_of_noErrors noShapeErrors
    received := by
      intro isThin id layer declared arriving found isOutput declares receives
      by_contra differs
      -- What is at odds in the end was recorded by the last pass.
      have recorded : id ∈ network.mismatched ⟨options.maxPasses, .thin⟩ := by
        refine (mem_mismatched_iff wired acyclic found).2
          ⟨options.maxPasses, passes, Nat.le_refl _, ?_⟩
        rw [← isThin]
        exact ⟨arriving, declared, isOutput, declares, receives, Bool.eq_false_iff.2 differs⟩
      rw [← isThin] at recorded
      rw [noMessages, List.forall₂_nil_right_iff] at judged
      rw [judged] at recorded
      cases recorded }

private def lateFit : Network :=
  let layers := ((empty "fit").addLayer "gate" (.conditional "x > 0" (some 3) none)).addLayer "x"
    (.input (some 1) none)
  let layers := (layers.addLayer "o" (.output (some 1) none .linear)).addLayer "branch"
    (.output (some 1) none .linear)
  let layers := layers.addLayer "same" (.norm (some ⟨[-1]⟩))
  ((layers.addEdge 0 2).addEdge 1 2).addEdge 0 4

private theorem built_lateFit : lateFit.Built := by
  have layers := Built.addLayer "branch" (.output (some 1) none .linear)
    (.addLayer "o" (.output (some 1) none .linear) (.addLayer "x" (.input (some 1) none)
      (.addLayer "gate" (.conditional "x > 0" (some 3) none) (.empty "fit"))))
  have first := (layers.addLayer "same" (.norm (some ⟨[-1]⟩))).addEdge
    (by decide : 0 < 5) (by decide : 2 < 5) rfl
  have second := first.addEdge (by decide : 1 < 5) (by decide : 2 < 5) rfl
  exact second.addEdge (by decide : 0 < 5) (by decide : 4 < 5) rfl

theorem validate_shapes_sound_lateFit :
    lateFit.Built ∧ 1 ≤ (⟨8, .thin⟩ : ShapeOptions).maxPasses ∧
      lateFit.validate ⟨8, .thin⟩ .shapes = .ok () ∧
      lateFit.ShapesFit .thin (lateFit.analyze ⟨8, .thin⟩).shapes := by
  have valid : lateFit.validate ⟨8, .thin⟩ .shapes = .ok () := by decide +kernel
  exact ⟨built_lateFit, by decide, valid, validate_shapes_sound built_lateFit (by decide) valid⟩

/-- The messages about mismatched outputs are what the passes found, and an output is mismatched
exactly if it was at odds after one of them. It still is in the report exactly if no later pass made
a fitting shape arrive, as is always so for an output that has everything upstream in order. -/
theorem alarm_true_iff_lasting (built : network.Built) (noCycle : network.findCycle = none)
    (maxPasses : Nat) :
    ((network.mismatched ⟨maxPasses, .thin⟩).Nodup ∧ ∃ messages,
        List.Forall₂ (fun id message => ∃ passes, 1 ≤ passes ∧ passes ≤ maxPasses ∧
          network.Reports (network.analyze ⟨passes, .thin⟩).shapes id message)
          (network.mismatched ⟨maxPasses, .thin⟩) messages ∧
        (network.analyze ⟨maxPasses, .thin⟩).errors =
          messages ++ network.shapeErrors (network.analyze ⟨maxPasses, .thin⟩).shapes) ∧
      ∀ id layer, network.layer? id = some layer →
        (id ∈ network.mismatched ⟨maxPasses, .thin⟩ ↔ ∃ passes, 1 ≤ passes ∧ passes ≤ maxPasses ∧
          layer.AtOdds (network.analyze ⟨passes, .thin⟩).shapes) ∧
        ((id ∈ network.mismatched ⟨maxPasses, .thin⟩ →
            layer.AtOdds (network.analyze ⟨maxPasses, .thin⟩).shapes) ↔
          ∀ passes, 1 ≤ passes → passes ≤ maxPasses →
            layer.AtOdds (network.analyze ⟨passes, .thin⟩).shapes →
            layer.AtOdds (network.analyze ⟨maxPasses, .thin⟩).shapes) ∧
        (network.InOrder (Relation.ReflTransGen network.ShapeNeeds id) →
          id ∈ network.mismatched ⟨maxPasses, .thin⟩ →
          layer.AtOdds (network.analyze ⟨maxPasses, .thin⟩).shapes) := by
  have wired := built.wired
  have acyclic := (findCycle_eq_none_iff wired).1 noCycle
  refine ⟨mismatched_reports wired acyclic _, fun id layer found => ?_⟩
  have mismatchedIff : id ∈ network.mismatched ⟨maxPasses, .thin⟩ ↔ _ :=
    mem_mismatched_iff wired acyclic found
  refine ⟨mismatchedIff, ⟨fun isTrue passes least within atOdds => ?_, fun lasting member => ?_⟩,
    fun inOrder member => ?_⟩
  · exact isTrue (mismatchedIff.2 ⟨passes, least, within, atOdds⟩)
  · obtain ⟨passes, least, within, atOdds⟩ := mismatchedIff.1 member
    exact lasting passes least within atOdds
  · obtain ⟨passes, least, within, arriving, declared, clashes⟩ := mismatchedIff.1 member
    exact ⟨arriving, declared, clashes.congr
      (incoming_of_inOrder wired found inOrder (least.trans within) least)⟩

private def narrowOutput : Network :=
  let layers := ((empty "narrow").addLayer "x" (.input (some 3) none)).addLayer "wide"
    (.dense ⟨4, .linear, none⟩)
  ((layers.addLayer "o" (.output (some 1) none .linear)).addEdge 0 1).addEdge 1 2

private theorem built_narrowOutput : narrowOutput.Built := by
  have layers := Built.addLayer "wide" (.dense ⟨4, .linear, none⟩)
    (.addLayer "x" (.input (some 3) none) (.empty "narrow"))
  have first := (layers.addLayer "o" (.output (some 1) none .linear)).addEdge
    (by decide : 0 < 3) (by decide : 1 < 3) rfl
  exact first.addEdge (by decide : 1 < 3) (by decide : 2 < 3) rfl

theorem narrowOutput_alarm :
    narrowOutput.Built ∧ narrowOutput.findCycle = none ∧
      (narrowOutput.analyze ⟨8, .thin⟩).errors = ["output 'o' receives [4] but declares [1]"] ∧
      ∃ output, narrowOutput.layer? 2 = some output ∧
        narrowOutput.InOrder (Relation.ReflTransGen narrowOutput.ShapeNeeds 2) ∧
        2 ∈ narrowOutput.mismatched ⟨8, .thin⟩ ∧
        output.AtOdds (narrowOutput.analyze ⟨8, .thin⟩).shapes := by
  have noCycle : narrowOutput.findCycle = none := rfl
  have wired := built_narrowOutput.wired
  have inOrder := inOrder_of_plain wired ((findCycle_eq_none_iff wired).1 noCycle) (by decide)
    (Relation.ReflTransGen narrowOutput.ShapeNeeds 2)
  have mismatched : 2 ∈ narrowOutput.mismatched ⟨8, .thin⟩ := by decide +kernel
  obtain ⟨output, found⟩ := exists_layer?_of_lt (by decide : 2 < narrowOutput.size)
  obtain ⟨_, each⟩ := alarm_true_iff_lasting built_narrowOutput noCycle 8
  obtain ⟨_, _, isTrue⟩ := each 2 output found
  exact ⟨built_narrowOutput, noCycle, by decide +kernel, output, found, inOrder, mismatched,
    isTrue inOrder mismatched⟩

private def lateBranch : Network :=
  let layers := ((empty "net").addLayer "x" (.input (some 1) none)).addLayer "h"
    (.dense ⟨1, .linear, none⟩)
  let layers := (layers.addLayer "r" (.output (some 1) none .linear)).addLayer "gate"
    (.conditional "x > 0" (some 2) none)
  let layers := (layers.addLayer "wide" (.dense ⟨2, .linear, none⟩)).addLayer "o"
    (.output (some 1) none .linear)
  let edges := ((layers.addEdge 0 3).addEdge 0 1).addEdge 1 2
  ((edges.addEdge 0 4).addEdge 3 5).addEdge 4 5

private theorem built_lateBranch : lateBranch.Built := by
  have layers := Built.addLayer "gate" (.conditional "x > 0" (some 2) none)
    (.addLayer "r" (.output (some 1) none .linear) (.addLayer "h" (.dense ⟨1, .linear, none⟩)
      (.addLayer "x" (.input (some 1) none) (.empty "net"))))
  have first := ((layers.addLayer "wide" (.dense ⟨2, .linear, none⟩)).addLayer "o"
    (.output (some 1) none .linear)).addEdge (by decide : 0 < 6) (by decide : 3 < 6) rfl
  have second := first.addEdge (by decide : 0 < 6) (by decide : 1 < 6) rfl
  have third := second.addEdge (by decide : 1 < 6) (by decide : 2 < 6) rfl
  have fourth := third.addEdge (by decide : 0 < 6) (by decide : 4 < 6) rfl
  have fifth := fourth.addEdge (by decide : 3 < 6) (by decide : 5 < 6) rfl
  exact fifth.addEdge (by decide : 4 < 6) (by decide : 5 < 6) rfl

/-- The output is recorded while the dense layer is all that arrives; in the report the conditional
arrives first, in the shape that the output declares. -/
theorem lateBranch_false_alarm :
    lateBranch.Built ∧ lateBranch.findCycle = none ∧
      (lateBranch.analyze ⟨8, .thin⟩).errors = ["output 'o' receives [2] but declares [1]"] ∧
      5 ∈ lateBranch.mismatched ⟨8, .thin⟩ ∧
      ∃ output, lateBranch.layer? 5 = some output ∧
        output.kind.declaredShape = some ⟨[1]⟩ ∧
        output.incoming (lateBranch.analyze ⟨8, .thin⟩).shapes = some ⟨[1]⟩ ∧
        ¬ output.AtOdds (lateBranch.analyze ⟨8, .thin⟩).shapes := by
  let output : Layer := ⟨5, "o", .output (some 1) none .linear, [3, 4], []⟩
  have arrives : output.incoming (lateBranch.analyze ⟨8, .thin⟩).shapes = some ⟨[1]⟩ := by
    decide +kernel
  refine ⟨built_lateBranch, rfl, by decide +kernel, by decide +kernel, output, rfl, rfl, arrives,
    ?_⟩
  rintro ⟨arriving, declared, clashes⟩
  have declares : some ⟨[1]⟩ = some declared := clashes.declares
  have receives := arrives.symm.trans clashes.receives
  cases declares
  cases receives
  exact absurd clashes.differs (by decide)

end Network

end NetBlueprint
