import Mathlib.Data.Finset.Card
import Mathlib.Data.Finset.Filter
import Mathlib.Data.Finset.Range
import NetBlueprint.Proofs.Analysis.Order
import NetBlueprint.Proofs.Analysis.Propagating

/-!
Contract: the passes of a shape inference come to rest, and the shapes are then the only solution.

A pass that changes nothing is one over stable layers only. Where no layer takes its shape from
itself, the passes settle the layers by depth: a layer is settled at the latest by the pass that
follows the one that settled its sources. Layers that stand behind all of their sources in the order
are settled by the first pass already.

Owns: passes that come to rest, solutions, depths of layers, layers in order.
Does not own: what is reported on the way.
-/

namespace NetBlueprint

namespace LayerKind

def isModule : LayerKind → Bool
  | .composite _ => true
  | _ => false

theorem roots_of_not_isConditional {kind : LayerKind} (other : kind.isConditional = false) :
    kind.roots = [] := by
  cases kind with
  | conditional _ _ _ => cases other
  | _ => rfl

theorem children_of_not_isModule {kind : LayerKind} (other : kind.isModule = false) :
    kind.children = [] := by
  cases kind with
  | composite _ => cases other
  | _ => rfl

end LayerKind

/-- The state that a pass starts from. -/
def Propagation.unmarked (state : Propagation) : Propagation :=
  { state with changed := false }

theorem Network.Supports.unmarked {network : Network} {state : Propagation}
    (supports : network.Supports state.shapes) : network.Supports state.unmarked.shapes :=
  supports

theorem Network.Settled.unmarked {network : Network} {within : LayerId → Prop}
    {state : Propagation} (settled : network.Settled within state.shapes) :
    network.Settled within state.unmarked.shapes :=
  settled

namespace Propagation

def start (network : Network) : Propagation :=
  ⟨network.declaredShapes, [], [], false⟩

/-- Passes follow one another until one changes nothing; nothing else ends them. -/
inductive ComesToRest (network : Network) (contract : OutputContract) (order : List LayerId) :
    Propagation → Nat → Propagation → Prop where
  | still {state : Propagation} (unchanged : (pass network contract order state).changed = false) :
      ComesToRest network contract order state 1 (pass network contract order state)
  | changes {state final : Propagation} {passes : Nat}
      (changed : (pass network contract order state).changed = true)
      (following : ComesToRest network contract order (pass network contract order state) passes
        final) :
      ComesToRest network contract order state (passes + 1) final

variable {network : Network} {contract : OutputContract} {state final : Propagation}
  {within : LayerId → Prop} {order : List LayerId} {id other : LayerId} {passes : Nat}

/-! ## Passes -/

/-- A pass keeps an entry for each layer, and what is known can still be inferred. -/
theorem supports_pass (wired : network.Wired) (supports : network.Supports state.shapes)
    (contract : OutputContract) (order : List LayerId) :
    network.Supports (pass network contract order state).shapes :=
  supports_visits wired supports.unmarked order

/-- Visits of stable layers change nothing. -/
theorem visits_of_stable (wired : network.Wired)
    (stable : ∀ id ∈ order, network.Stable state.shapes id) :
    (order.foldl (visit network contract) state).shapes = state.shapes ∧
      (order.foldl (visit network contract) state).changed = state.changed := by
  induction order generalizing state with
  | nil => exact ⟨rfl, rfl⟩
  | cons id rest inductionHypothesis =>
      obtain ⟨first, stableRest⟩ := List.forall_mem_cons.1 stable
      obtain ⟨sameShapes, sameMark⟩ := visit_of_stable wired contract first
      rw [List.foldl_cons, ← sameShapes, ← sameMark]
      rw [← sameShapes] at stableRest
      exact inductionHypothesis stableRest

/-- Visits that change nothing have found stable layers only. -/
theorem stable_of_visits (wired : network.Wired) (supports : network.Supports state.shapes)
    (unchanged : (order.foldl (visit network contract) state).changed = false) :
    state.changed = false ∧ ∀ id ∈ order, network.Stable state.shapes id := by
  induction order generalizing state with
  | nil => exact ⟨unchanged, fun _ member => absurd member List.not_mem_nil⟩
  | cons id rest inductionHypothesis =>
      -- A mark is never taken back, so one that is off in the end is off after the first visit.
      obtain ⟨notYet, stableRest⟩ :=
        inductionHypothesis (supports_visit wired supports id) unchanged
      have stable := stable_of_unchanged wired supports notYet
      obtain ⟨sameShapes, sameMark⟩ := visit_of_stable wired contract stable
      rw [sameShapes] at stableRest
      rw [sameMark] at notYet
      exact ⟨notYet, List.forall_mem_cons.2 ⟨stable, stableRest⟩⟩

/-- A pass changes nothing exactly if all layers that it comes to are stable. -/
theorem pass_unchanged_iff (wired : network.Wired) (supports : network.Supports state.shapes) :
    (pass network contract order state).changed = false ↔
      ∀ id ∈ order, network.Stable state.shapes id := by
  constructor
  · intro unchanged
    exact (stable_of_visits wired supports.unmarked unchanged).2
  · intro stable
    have stableUnmarked : ∀ id ∈ order, network.Stable (unmarked state).shapes id := stable
    exact (visits_of_stable wired stableUnmarked).2

private theorem shapes_pass_of_stable (wired : network.Wired)
    (stable : ∀ id ∈ order, network.Stable state.shapes id) :
    (pass network contract order state).shapes = state.shapes := by
  have stableUnmarked : ∀ id ∈ order, network.Stable (unmarked state).shapes id := stable
  exact (visits_of_stable wired stableUnmarked).1

/-- When the passes have come to rest, all layers that they come to are stable. -/
theorem ComesToRest.stable (wired : network.Wired) (supports : network.Supports state.shapes)
    (rests : ComesToRest network contract order state passes final) :
    ∀ id ∈ order, network.Stable final.shapes id := by
  induction rests with
  | still unchanged =>
      have stable := (pass_unchanged_iff wired supports).1 unchanged
      rwa [shapes_pass_of_stable wired stable]
  | changes _ _ inductionHypothesis =>
      exact inductionHypothesis (supports_pass wired supports contract order)

/-! ## Runs -/

private theorem supports_run (wired : network.Wired) (supports : network.Supports state.shapes)
    (order : List LayerId) (budget : Nat) :
    network.Supports (run network contract order budget state).1.shapes := by
  induction budget generalizing state with
  | zero => exact supports
  | succ budget inductionHypothesis =>
      rw [run]
      split
      · exact inductionHypothesis (supports_pass wired supports contract order)
      · exact supports_pass wired supports contract order

/-- One pass over stable layers ends a run. -/
theorem passes_run_of_stable (wired : network.Wired) (supports : network.Supports state.shapes)
    (stable : ∀ id ∈ order, network.Stable state.shapes id) (budget : Nat) :
    (run network contract order budget state).2 ≤ 1 := by
  cases budget with
  | zero => exact Nat.zero_le 1
  | succ budget =>
      rw [run, (pass_unchanged_iff wired supports).2 stable]
      exact Nat.le_refl 1

/-- No run changes the shape of a settled layer. -/
theorem known_run_of_settled (wired : network.Wired) (supports : network.Supports state.shapes)
    (settled : network.Settled within state.shapes) (isWithin : within other)
    (order : List LayerId) (budget : Nat) :
    (run network contract order budget state).1.shapes.known other = state.shapes.known other := by
  induction budget generalizing state with
  | zero => rfl
  | succ budget inductionHypothesis =>
      have kept : (pass network contract order state).shapes.known other =
          state.shapes.known other :=
        known_visits_of_settled wired supports.unmarked settled.unmarked isWithin order
      have settledAfter : network.Settled within (pass network contract order state).shapes :=
        settled_visits wired supports.unmarked settled.unmarked order
      rw [run]
      split
      · have later := inductionHypothesis (supports_pass wired supports contract order) settledAfter
        exact later.trans kept
      · exact kept

end Propagation

namespace Network

open Propagation

variable {network : Network} {contract : OutputContract} {state : Propagation}
  {within : LayerId → Prop} {id other : LayerId} {level : Nat}

/-- The propagation that an analysis runs, and the number of its passes. -/
def propagation (network : Network) (options : ShapeOptions) : Propagation × Nat :=
  run network options.contract network.layerOrder options.maxPasses (start network)

/-- An analysis shows the shapes with which its propagation ends. -/
theorem shapes_analyze (network : Network) (options : ShapeOptions) :
    (network.analyze options).shapes = (network.propagation options).1.shapes := rfl

private theorem passes_analyze (network : Network) (options : ShapeOptions) :
    (network.analyze options).passes = (network.propagation options).2 := rfl

theorem supports_start (network : Network) : network.Supports (start network).shapes :=
  supports_declaredShapes network

/-- The shapes of an analysis have an entry for each layer. -/
theorem supports_analyze (wired : network.Wired) (options : ShapeOptions) :
    network.Supports (network.analyze options).shapes := by
  rw [shapes_analyze, propagation]
  exact supports_run wired (supports_start network) network.layerOrder options.maxPasses

/-- An assignment of shapes to layers gives every layer the shape that its kind makes of the shapes
of the others. -/
structure Solves (network : Network) (shapes : ShapeTable) : Prop where
  sized : shapes.size = network.size
  stable : ∀ id, network.Stable shapes id

/-- No layer takes its shape from itself, be it through others. -/
def ShapeAcyclic (network : Network) : Prop :=
  ∀ id, ¬ Relation.TransGen network.ShapeNeeds id id

/-- Layers that stand lower than what takes its shape from them lead back to none. -/
theorem ShapeAcyclic.of_height (height : LayerId → Nat)
    (lower : ∀ id layer, network.layer? id = some layer →
      ∀ other ∈ layer.sources, height other < height id) : network.ShapeAcyclic := by
  have below : ∀ {id other}, Relation.TransGen network.ShapeNeeds id other →
      height other < height id := by
    intro id other leads
    induction leads with
    | single needs =>
        obtain ⟨layer, found, member⟩ := needs
        exact lower id layer found _ member
    | tail _ needs inductionHypothesis =>
        obtain ⟨layer, found, member⟩ := needs
        exact (lower _ layer found _ member).trans inductionHypothesis
  exact fun id loops => Nat.lt_irrefl _ (below loops)

/-- The order of an analysis holds every layer. -/
theorem mem_layerOrder (wired : network.Wired) : id ∈ network.layerOrder ↔ id < network.size := by
  rw [(layerOrder_perm wired).mem_iff, List.mem_range]

private theorem stable_everywhere (wired : network.Wired) {shapes : ShapeTable}
    (stable : ∀ id ∈ network.layerOrder, network.Stable shapes id) (id : LayerId) :
    network.Stable shapes id := by
  rcases Nat.lt_or_ge id network.size with inside | outside
  · exact stable id ((mem_layerOrder wired).2 inside)
  · exact .of_size_le outside

/-! ## Depths -/

open Classical in
/-- How many layers the shape of a layer is inferred from, directly or through others. -/
noncomputable def depth (network : Network) (id : LayerId) : Nat :=
  ((Finset.range network.size).filter fun other =>
    Relation.TransGen network.ShapeNeeds id other).card

private theorem depth_lt_size (acyclic : network.ShapeAcyclic) (inside : id < network.size) :
    network.depth id < network.size := by
  classical
  have fewer : network.depth id < (Finset.range network.size).card := by
    refine Finset.card_lt_card (Finset.filter_ssubset.2 ⟨id, ?_, acyclic id⟩)
    exact Finset.mem_range.2 inside
  rwa [Finset.card_range] at fewer

/-- A source is less deep. -/
theorem depth_lt_depth (acyclic : network.ShapeAcyclic) (needs : network.ShapeNeeds id other)
    (inside : other < network.size) : network.depth other < network.depth id := by
  classical
  refine Finset.card_lt_card (Finset.ssubset_iff_of_subset ?_ |>.2 ⟨other, ?_, ?_⟩)
  · intro source member
    rw [Finset.mem_filter] at member ⊢
    exact ⟨member.1, .head needs member.2⟩
  · exact Finset.mem_filter.2 ⟨Finset.mem_range.2 inside, .single needs⟩
  · intro member
    exact acyclic other (Finset.mem_filter.1 member).2

/-- The layers above a depth; a number without a layer counts as one of them. -/
def Above (network : Network) (level : Nat) (id : LayerId) : Prop :=
  network.size ≤ id ∨ network.depth id < level

private theorem settled_above_zero (network : Network) (shapes : ShapeTable) :
    network.Settled (network.Above 0) shapes where
  closed above needs :=
    absurd needs.lt_size (Nat.not_lt.2 (above.resolve_right (Nat.not_lt_zero _)))
  stable above := .of_size_le (above.resolve_right (Nat.not_lt_zero _))

/-- What a layer takes its shape from stands above it. -/
theorem above_of_needs (acyclic : network.ShapeAcyclic) (needs : network.ShapeNeeds id other)
    (above : network.Above (level + 1) id) : network.Above level other := by
  have shallow := above.resolve_left (Nat.not_le.2 needs.lt_size)
  refine (Nat.lt_or_ge other network.size).symm.imp_right fun inside => ?_
  have less := depth_lt_depth acyclic needs inside
  omega

/-- Each pass settles the layers of one more depth. -/
theorem settled_pass_above (wired : network.Wired) (acyclic : network.ShapeAcyclic)
    (supports : network.Supports state.shapes)
    (settled : network.Settled (network.Above level) state.shapes) :
    network.Settled (network.Above (level + 1))
      (pass network contract network.layerOrder state).shapes where
  closed above needs := (above_of_needs acyclic needs above).imp_right Nat.lt_succ_of_lt
  stable := by
    intro id above
    rcases Nat.lt_or_ge id network.size with inside | outside
    · exact stable_of_visited wired supports.unmarked settled.unmarked
        ((mem_layerOrder wired).2 inside) fun other needs => above_of_needs acyclic needs above
    · exact .of_size_le outside

/-- A run that may take a pass for each depth that is left, and one more, comes to rest. -/
theorem comesToRest_of_budget (wired : network.Wired) (acyclic : network.ShapeAcyclic) :
    ∀ {budget level : Nat} {state : Propagation}, network.Supports state.shapes →
      network.Settled (network.Above level) state.shapes → level ≤ network.size →
      network.size < budget + level →
      ComesToRest network contract network.layerOrder state
        (run network contract network.layerOrder budget state).2
        (run network contract network.layerOrder budget state).1
  | 0, level, state, _, _, low, enough => by omega
  | budget + 1, level, state, supports, settled, low, enough => by
      rw [run]
      cases changed : (pass network contract network.layerOrder state).changed with
      | false => exact .still changed
      | true =>
          -- With every depth settled, the pass would have met stable layers only.
          have deeper : level < network.size := by
            refine Nat.lt_of_le_of_ne low fun all => ?_
            have stable : ∀ id ∈ network.layerOrder, network.Stable state.shapes id := by
              intro id member
              have inside := (mem_layerOrder wired).1 member
              exact settled.stable (.inr (all ▸ depth_lt_size acyclic inside))
            rw [(pass_unchanged_iff wired supports).2 stable] at changed
            cases changed
          exact .changes changed (comesToRest_of_budget wired acyclic
            (supports_pass wired supports contract network.layerOrder)
            (settled_pass_above wired acyclic supports settled) deeper (by omega))

/-- Two solutions are the same: they give a layer the same shape as soon as they do so for its
sources, which are less deep. -/
theorem Solves.unique (acyclic : network.ShapeAcyclic) {first second : ShapeTable}
    (solves : network.Solves first) (solvesToo : network.Solves second) : first = second := by
  have outside : ∀ id, network.size ≤ id → first.known id = second.known id := by
    intro id outside
    rw [ShapeTable.known_of_size_le (solves.sized.trans_le outside),
      ShapeTable.known_of_size_le (solvesToo.sized.trans_le outside)]
  refine ShapeTable.eq_of_known (solves.sized.trans solvesToo.sized.symm) fun id => ?_
  induction deep : network.depth id using Nat.strong_induction_on generalizing id with
  | h level inductionHypothesis =>
      rcases Nat.lt_or_ge id network.size with inside | beyond
      · obtain ⟨layer, found⟩ := exists_layer?_of_lt inside
        rw [solves.stable id layer found, solvesToo.stable id layer found]
        refine Layer.inferShape_congr fun source member => ?_
        rcases Nat.lt_or_ge source network.size with sourceInside | sourceBeyond
        · have less := depth_lt_depth acyclic ⟨layer, found, member⟩ sourceInside
          exact inductionHypothesis _ (deep ▸ less) source rfl
        · exact outside source sourceBeyond
      · exact outside id beyond

/-! ## Layers in order -/

/-- The layers of a region stand behind what their shapes are inferred from. -/
def InOrder (network : Network) (within : LayerId → Prop) : Prop :=
  Grounded (fun id other => within id ∧ network.ShapeNeeds id other ∧ other < network.size)
    network.layerOrder.reverse

/-- A region in order is settled by one pass. -/
theorem settled_pass_of_inOrder (wired : network.Wired) (supports : network.Supports state.shapes)
    (closed : ∀ {id other}, within id → network.ShapeNeeds id other → within other)
    (inOrder : network.InOrder within) :
    network.Settled within (pass network contract network.layerOrder state).shapes := by
  have settled : network.Settled (fun id =>
        within id ∧ (id ∈ network.layerOrder.reverse ∨ network.size ≤ id))
      (network.layerOrder.reverse.reverse.foldl (visit network contract) (unmarked state)).shapes :=
    settled_of_grounded wired supports.unmarked closed inOrder
  rw [List.reverse_reverse] at settled
  refine ⟨closed, fun {id} isWithin => settled.stable ⟨isWithin, ?_⟩⟩
  rcases Nat.lt_or_ge id network.size with inside | outside
  · exact .inl (List.mem_reverse.2 ((mem_layerOrder wired).2 inside))
  · exact .inr outside

/-- No pass but the first changes the shapes of a region in order. -/
theorem known_run_of_inOrder (wired : network.Wired) (supports : network.Supports state.shapes)
    (closed : ∀ {id other}, within id → network.ShapeNeeds id other → within other)
    (inOrder : network.InOrder within) (isWithin : within other) (budget : Nat) :
    (run network contract network.layerOrder (budget + 1) state).1.shapes.known other =
      (pass network contract network.layerOrder state).shapes.known other := by
  rw [run]
  split
  · exact known_run_of_settled wired (supports_pass wired supports contract _)
      (settled_pass_of_inOrder wired supports closed inOrder) isWithin _ budget
  · rfl

/-- Without cycles the order is that of the layers that can be placed. -/
theorem layerOrder_eq_readyOrder (wired : network.Wired) (acyclic : network.Acyclic) :
    network.layerOrder = network.readyOrder := by
  have nothing : (List.range network.size).filter (fun id => !network.readyOrder.contains id) =
      [] := by
    refine List.filter_eq_nil_iff.2 fun id member => ?_
    have placed := mem_readyOrder_of_acyclic wired acyclic (List.mem_range.1 member)
    simp [placed]
  rw [layerOrder, nothing, List.append_nil]

/-- Without cycles every layer stands behind its producers. -/
theorem grounded_layerOrder (wired : network.Wired) (acyclic : network.Acyclic) :
    Grounded (fun consumer producer => network.Edge producer consumer)
      network.layerOrder.reverse := by
  obtain ⟨_, settled⟩ := readyOrder_settled wired
  rw [layerOrder_eq_readyOrder wired acyclic]
  exact settled.grounded

/-- There are no conditionals and no modules, so layers take their shapes from their producers. -/
def Plain (network : Network) : Prop :=
  ∀ layer ∈ network.layers.toList,
    layer.kind.isConditional = false ∧ layer.kind.isModule = false

instance (network : Network) : Decidable network.Plain :=
  inferInstanceAs (Decidable (∀ layer ∈ network.layers.toList, _ ∧ _))

private theorem edge_of_plain (wired : network.Wired) (plain : network.Plain)
    (needs : network.ShapeNeeds id other) : network.Edge other id := by
  obtain ⟨layer, found, member⟩ := needs
  obtain ⟨notConditional, notModule⟩ := plain layer (mem_layers found)
  rw [Layer.sources, LayerKind.roots_of_not_isConditional notConditional,
    LayerKind.children_of_not_isModule notModule, List.append_nil] at member
  refine (mem_inputsOf wired (lt_size_of_layer? found)).1 ?_
  rw [inputsOf, found]
  exact (List.mem_append.1 member).resolve_right List.not_mem_nil

/-- Without cycles, conditionals and modules the layers stand in order. -/
theorem inOrder_of_plain (wired : network.Wired) (acyclic : network.Acyclic)
    (plain : network.Plain) (within : LayerId → Prop) : network.InOrder within :=
  (grounded_layerOrder wired acyclic).imp fun less => edge_of_plain wired plain less.2.1

/-- Without cycles, conditionals and modules no layer takes its shape from itself. -/
theorem shapeAcyclic_of_plain (wired : network.Wired) (acyclic : network.Acyclic)
    (plain : network.Plain) : network.ShapeAcyclic := by
  intro id loops
  have back : network.ShapeNeeds ≤ Function.swap network.Edge :=
    fun _ _ needs => edge_of_plain wired plain needs
  exact acyclic id (Relation.transGen_swap.1 (Relation.TransGen.mono back id id loops))

/-! ## Results -/

/-- If no layer takes its shape from itself and there may be more passes than layers, the analysis
ends with a pass that changes nothing, and its shapes are the only assignment that gives every layer
what its kind makes of the others. -/
theorem analyze_shapes_unique (built : network.Built) (acyclic : network.ShapeAcyclic)
    {options : ShapeOptions} (enough : network.size < options.maxPasses) :
    (∃ final, ComesToRest network options.contract network.layerOrder (start network)
        (network.analyze options).passes final ∧ (network.analyze options).shapes = final.shapes) ∧
      network.Solves (network.analyze options).shapes ∧
      ∀ shapes, network.Solves shapes → shapes = (network.analyze options).shapes := by
  have wired := built.wired
  have supports := supports_start network
  have rests : ComesToRest network options.contract network.layerOrder (start network)
      (network.analyze options).passes (network.propagation options).1 :=
    comesToRest_of_budget wired acyclic supports (settled_above_zero network _) (Nat.zero_le _)
      enough
  have solves : network.Solves (network.analyze options).shapes := {
    sized := (supports_analyze wired options).sized
    stable := stable_everywhere wired (rests.stable wired supports) }
  exact ⟨⟨_, rests, rfl⟩, solves, fun _ other => other.unique acyclic solves⟩

private def lateRoot : Network :=
  let layers := (empty "late").addLayer "gate" (.conditional "x > 0" (some 3) (some 1))
  let layers := (layers.addLayer "x" (.input (some 2) none)).addLayer "block" (.composite [1, 3])
  (layers.addLayer "wide" (.dense ⟨4, .relu, none⟩)).addEdge 1 3

private theorem built_lateRoot : lateRoot.Built := by
  have layers := Built.addLayer "block" (.composite [1, 3])
    (.addLayer "x" (.input (some 2) none)
      (.addLayer "gate" (.conditional "x > 0" (some 3) (some 1)) (.empty "late")))
  exact (layers.addLayer "wide" (.dense ⟨4, .relu, none⟩)).addEdge
    (by decide : 1 < 4) (by decide : 3 < 4) rfl

private theorem shapeAcyclic_lateRoot : lateRoot.ShapeAcyclic := by
  refine .of_height (fun id => [2, 0, 2, 1].getD id 0) fun id layer found => ?_
  have lower : ∀ id < 4, ∀ layer ∈ lateRoot.layer? id, ∀ other ∈ layer.sources,
      [2, 0, 2, 1].getD other 0 < [2, 0, 2, 1].getD id 0 := by decide
  exact lower id (lt_size_of_layer? found) layer found

theorem analyze_shapes_unique_lateRoot :
    lateRoot.Built ∧ lateRoot.ShapeAcyclic ∧ lateRoot.size < ShapeOptions.standard.maxPasses ∧
      (lateRoot.analyze .standard).passes = 3 ∧
      ∀ shapes, lateRoot.Solves shapes →
        shapes = #[some ⟨[4]⟩, some ⟨[2]⟩, some ⟨[4]⟩, some ⟨[4]⟩] := by
  have enough : lateRoot.size < ShapeOptions.standard.maxPasses := by decide
  obtain ⟨_, _, unique⟩ := analyze_shapes_unique built_lateRoot shapeAcyclic_lateRoot enough
  have shapes : (lateRoot.analyze .standard).shapes =
      #[some ⟨[4]⟩, some ⟨[2]⟩, some ⟨[4]⟩, some ⟨[4]⟩] := by decide +kernel
  have three : (lateRoot.analyze .standard).passes = 3 := by decide +kernel
  exact ⟨built_lateRoot, shapeAcyclic_lateRoot, enough, three, shapes ▸ unique⟩

/-- Without cycles, conditionals and modules the shapes are those of the first pass, however many
passes there may be, and at most one more pass is made. -/
theorem one_pass_enough (built : network.Built) (noCycle : network.findCycle = none)
    (plain : network.Plain) :
    (∀ options : ShapeOptions, (network.analyze options).passes ≤ 2) ∧
      ∀ first second : ShapeOptions, 1 ≤ first.maxPasses → 1 ≤ second.maxPasses →
        (network.analyze first).shapes = (network.analyze second).shapes := by
  have wired := built.wired
  have acyclic := (findCycle_eq_none_iff wired).1 noCycle
  have supports := supports_start network
  have inOrder := inOrder_of_plain wired acyclic plain fun _ => True
  have settled : ∀ contract, network.Settled (fun _ => True)
      (pass network contract network.layerOrder (start network)).shapes :=
    fun contract => settled_pass_of_inOrder wired supports (fun _ _ => trivial) inOrder
  constructor
  · rintro ⟨_ | budget, contract⟩
    · exact Nat.zero_le 2
    · rw [passes_analyze, propagation, run]
      split
      · exact Nat.succ_le_succ (passes_run_of_stable wired (supports_pass wired supports contract _)
          (fun _ _ => (settled contract).stable trivial) budget)
      · exact Nat.le_succ 1
  · have solves : ∀ options : ShapeOptions, 1 ≤ options.maxPasses →
        network.Solves (network.analyze options).shapes := by
      rintro ⟨_ | budget, contract⟩ least
      · cases least
      · refine ⟨(supports_analyze wired _).sized, fun id => ?_⟩
        refine ((settled contract).of_alike fun other _ => ?_).stable trivial
        exact known_run_of_inOrder wired supports (fun _ _ => trivial) inOrder trivial budget
    intro first second leastFirst leastSecond
    have shapeAcyclic := shapeAcyclic_of_plain wired acyclic plain
    exact (solves first leastFirst).unique shapeAcyclic (solves second leastSecond)

private def upwardChain : Network :=
  let layers := ((empty "chain").addLayer "last" (.output none none .linear)).addLayer "same"
    (.norm none)
  let layers := (layers.addLayer "wide" (.dense ⟨4, .relu, none⟩)).addLayer "first"
    (.input (some 2) none)
  ((layers.addEdge 3 2).addEdge 2 1).addEdge 1 0

private theorem built_upwardChain : upwardChain.Built := by
  have layers := Built.addLayer "wide" (.dense ⟨4, .relu, none⟩)
    (.addLayer "same" (.norm none) (.addLayer "last" (.output none none .linear) (.empty "chain")))
  have first := (layers.addLayer "first" (.input (some 2) none)).addEdge
    (by decide : 3 < 4) (by decide : 2 < 4) rfl
  have second := first.addEdge (by decide : 2 < 4) (by decide : 1 < 4) rfl
  exact second.addEdge (by decide : 1 < 4) (by decide : 0 < 4) rfl

theorem one_pass_enough_upwardChain :
    upwardChain.Built ∧ upwardChain.findCycle = none ∧ upwardChain.Plain ∧
      (upwardChain.analyze .standard).passes ≤ 2 ∧
      (upwardChain.analyze .standard).shapes = (upwardChain.analyze ⟨1, .thin⟩).shapes := by
  have noCycle : upwardChain.findCycle = none := rfl
  have plain : upwardChain.Plain := by decide
  obtain ⟨few, same⟩ := one_pass_enough built_upwardChain noCycle plain
  exact ⟨built_upwardChain, noCycle, plain, few _, same _ _ (by decide) (by decide)⟩

end Network

end NetBlueprint
