import NetBlueprint.Analysis.Shapes
import NetBlueprint.Proofs.Graph.Grounded
import NetBlueprint.Proofs.Graph.WellFormed

/-!
Contract: what the visits of a shape inference do to the shapes.

The shape of a layer is inferred from the shapes of its sources alone, and of more known sources no
fewer shapes are inferred, so a shape that is known once stays known. A layer is stable when its
shape is the one inferred for it. Stable layers whose sources are among them are settled: no visit
changes their shapes any more. A visit settles a layer whose sources are settled, whatever stands
before it in the order, and a whole pass settles all layers that stand behind their sources.

Owns: sources of shapes, stable and settled layers, visits one after the other.
Does not own: the number of passes, and what is reported on the way.
-/

namespace NetBlueprint

namespace ShapeTable

variable {shapes first second : ShapeTable} {id other : LayerId} {shape : Shape}

theorem known_of_size_le (outside : shapes.size ≤ id) : shapes.known id = none := by
  rw [known, Array.getElem?_eq_none outside]
  rfl

private theorem known_set (inside : id < shapes.size) :
    ShapeTable.known (shapes.setIfInBounds id (some shape)) other =
      if id = other then some shape else shapes.known other := by
  unfold known
  rw [Array.getElem?_setIfInBounds]
  by_cases same : id = other
  · rw [if_pos same, if_pos inside, if_pos same]
    rfl
  · rw [if_neg same, if_neg same]

/-- Tables of one size in which the same shapes are known are the same. -/
theorem eq_of_known (sizes : first.size = second.size)
    (alike : ∀ id, first.known id = second.known id) : first = second := by
  refine Array.ext sizes fun id inFirst inSecond => ?_
  have same := alike id
  unfold known at same
  rwa [Array.getElem?_eq_getElem inFirst, Array.getElem?_eq_getElem inSecond] at same

end ShapeTable

namespace Layer

variable {layer : Layer} {first second : ShapeTable}

/-- The layers that the shape of a layer is inferred from: its producers, the roots of a conditional
and the last child of a module. -/
def sources (layer : Layer) : List LayerId :=
  layer.inputs ++ layer.kind.roots ++ layer.kind.children.getLast?.toList

/-- What arrives at a layer depends on the shapes of its producers alone. -/
theorem incoming_congr (alike : ∀ source ∈ layer.inputs, first.known source = second.known source) :
    layer.incoming first = layer.incoming second := by
  rw [incoming, incoming, ← List.head?_filterMap, ← List.head?_filterMap,
    List.filterMap_congr alike]

/-- The shape of a layer is inferred from those of its sources. -/
theorem inferShape_congr
    (alike : ∀ source ∈ layer.sources, first.known source = second.known source) :
    layer.inferShape first = layer.inferShape second := by
  obtain ⟨named, last⟩ := List.forall_mem_append.1 alike
  obtain ⟨inputs, roots⟩ := List.forall_mem_append.1 named
  have arriving := incoming_congr inputs
  unfold inferShape
  rw [arriving]
  cases kind : layer.kind with
  | conditional condition thenRoot elseRoot =>
      rw [kind] at roots
      obtain ⟨thenRoots, elseRoots⟩ := List.forall_mem_append.1 roots
      have thenAlike : thenRoot.bind first.known = thenRoot.bind second.known :=
        Option.bind_congr fun root isRoot => thenRoots root (Option.mem_toList.2 isRoot)
      have elseAlike : elseRoot.bind first.known = elseRoot.bind second.known :=
        Option.bind_congr fun root isRoot => elseRoots root (Option.mem_toList.2 isRoot)
      simp only [thenAlike, elseAlike]
  | composite children =>
      rw [kind] at last
      exact Option.bind_congr fun child isLast => last child (Option.mem_toList.2 isLast)
  | _ => rfl

private theorem isSome_bind_mono {found : Option LayerId}
    (grows : ∀ id, (first.known id).isSome → (second.known id).isSome)
    (known : (found.bind first.known).isSome) : (found.bind second.known).isSome := by
  cases found with
  | none => cases known
  | some id => exact grows id known

private theorem isSome_incoming_mono
    (grows : ∀ id, (first.known id).isSome → (second.known id).isSome)
    (known : (layer.incoming first).isSome) : (layer.incoming second).isSome := by
  rw [incoming, List.findSome?_isSome_iff] at known ⊢
  obtain ⟨producer, member, knownBefore⟩ := known
  exact ⟨producer, member, grows producer knownBefore⟩

/-- Where more shapes are known, no fewer are inferred. -/
theorem isSome_inferShape_mono (grows : ∀ id, (first.known id).isSome → (second.known id).isSome)
    (inferred : (layer.inferShape first).isSome) : (layer.inferShape second).isSome := by
  have arriving : (layer.incoming first).isSome → (layer.incoming second).isSome :=
    isSome_incoming_mono grows
  unfold inferShape at inferred ⊢
  cases kind : layer.kind with
  | input _ _ | reshape _ => simpa only [kind] using inferred
  | conditional _ thenRoot elseRoot =>
      simp only [kind, Option.isSome_or, Bool.or_eq_true] at inferred ⊢
      exact inferred.imp (isSome_bind_mono grows) (isSome_bind_mono grows)
  | composite children =>
      simp only [kind] at inferred ⊢
      exact isSome_bind_mono grows inferred
  | output _ _ _ =>
      simp only [kind, Option.isSome_or, Bool.or_eq_true] at inferred ⊢
      exact inferred.imp_right arriving
  | dropout _ _ _ | norm _ | activation _ _ =>
      simp only [kind, Option.isSome_or, Bool.or_eq_true] at inferred ⊢
      exact inferred.imp_left arriving
  | dense dense =>
      simp only [kind] at inferred ⊢
      split at inferred
      · cases inferred
      · rename_i fits
        rw [if_neg fits]
        split at inferred
        · rename_i none
          rw [if_pos none]
          rfl
        · rename_i some
          rw [if_neg some, Option.isSome_map]
          rw [Option.isSome_map] at inferred
          exact arriving inferred
  | conv _ _ _ | attention _ _ | transformer _ _ _ =>
      simp only [kind] at inferred ⊢
      exact arriving inferred
  | test _ _ _ | repetition _ _ _ _ | template _ =>
      simp only [kind] at inferred
      cases inferred

end Layer

namespace Network

/-- The shape of a layer is inferred from that of another. -/
def ShapeNeeds (network : Network) (id other : LayerId) : Prop :=
  ∃ layer, network.layer? id = some layer ∧ other ∈ layer.sources

/-- The shape of a layer is the one that is inferred for it. -/
def Stable (network : Network) (shapes : ShapeTable) (id : LayerId) : Prop :=
  ∀ layer, network.layer? id = some layer → shapes.known id = layer.inferShape shapes

/-- There is an entry for each layer, and for what is known a shape can be inferred. -/
structure Supports (network : Network) (shapes : ShapeTable) : Prop where
  sized : shapes.size = network.size
  inferable : ∀ {id layer}, network.layer? id = some layer → (shapes.known id).isSome →
    (layer.inferShape shapes).isSome

/-- Some layers are stable, and their shapes are inferred from one another only. -/
structure Settled (network : Network) (within : LayerId → Prop) (shapes : ShapeTable) : Prop where
  closed : ∀ {id other}, within id → network.ShapeNeeds id other → within other
  stable : ∀ {id}, within id → network.Stable shapes id

variable {network : Network} {shapes first second : ShapeTable} {within : LayerId → Prop}
  {id other : LayerId} {layer : Layer}

theorem ShapeNeeds.lt_size (needs : network.ShapeNeeds id other) : id < network.size := by
  obtain ⟨_, found, _⟩ := needs
  exact lt_size_of_layer? found

theorem Stable.of_size_le (outside : network.size ≤ id) : network.Stable shapes id := by
  intro layer found
  rw [layer?_eq_none outside] at found
  cases found

/-- A layer for which nothing is inferred has no shape. -/
theorem Supports.known_eq_none (supports : network.Supports shapes)
    (found : network.layer? id = some layer) (nothing : layer.inferShape shapes = none) :
    shapes.known id = none := by
  cases known : shapes.known id with
  | none => rfl
  | some shape =>
      have inferred := supports.inferable found (by rw [known]; rfl)
      rw [nothing] at inferred
      cases inferred

/-- Before the first pass a layer has the shape that its kind has by itself. -/
theorem known_declaredShapes (found : network.layer? id = some layer) :
    ShapeTable.known network.declaredShapes id = layer.kind.intrinsicShape := by
  rw [ShapeTable.known, declaredShapes, Array.getElem?_map,
    show network.layers[id]? = some layer from found]
  rfl

theorem supports_declaredShapes (network : Network) :
    network.Supports network.declaredShapes where
  sized := Array.size_map
  inferable := by
    intro id layer found known
    rw [known_declaredShapes found] at known
    unfold Layer.inferShape
    cases kind : layer.kind with
    | input _ _ | reshape _ => rwa [kind] at known
    | _ =>
        rw [kind] at known
        cases known

/-- Settled layers stay so where their shapes do. -/
theorem Settled.of_alike (settled : network.Settled within first)
    (alike : ∀ id, within id → second.known id = first.known id) :
    network.Settled within second where
  closed := settled.closed
  stable := by
    intro id isWithin layer found
    rw [alike id isWithin, settled.stable isWithin layer found]
    refine Layer.inferShape_congr fun source member => (alike source ?_).symm
    exact settled.closed isWithin ⟨layer, found, member⟩

end Network

namespace Propagation

variable {network : Network} {contract : OutputContract} {state : Propagation}
  {within : LayerId → Prop} {order : List LayerId} {id other : LayerId} {layer : Layer}

private theorem shapes_flag (contract : OutputContract) (state : Propagation) (layer : Layer) :
    (flag contract state layer).shapes = state.shapes := by
  unfold flag
  repeat' split
  all_goals rfl

private theorem changed_flag (contract : OutputContract) (state : Propagation) (layer : Layer) :
    (flag contract state layer).changed = state.changed := by
  unfold flag
  repeat' split
  all_goals rfl

/-! ## One visit -/

/-- A visit is over at once where there is no layer. -/
theorem visit_of_absent (absent : network.layer? id = none) :
    visit network contract state id = state := by
  rw [visit, absent]

theorem visit_of_found (found : network.layer? id = some layer) :
    visit network contract state id = (state.flag contract layer).store layer := by
  rw [visit, found]

/-- A visit gives its layer the shape that is inferred for it and leaves the others theirs. -/
theorem known_visit (wired : network.Wired) (supports : network.Supports state.shapes)
    (found : network.layer? id = some layer) (other : LayerId) :
    (visit network contract state id).shapes.known other =
      if id = other then layer.inferShape state.shapes else state.shapes.known other := by
  have inside : id < state.shapes.size := supports.sized ▸ Network.lt_size_of_layer? found
  have numbered := wired.numbered found
  rw [visit_of_found found, store, shapes_flag, numbered]
  cases inferred : layer.inferShape state.shapes with
  | none =>
      have unknown := supports.known_eq_none found inferred
      simp only [shapes_flag]
      split
      · rename_i same
        rwa [← same]
      · rfl
  | some shape =>
      simp only
      split
      · rename_i same
        rw [shapes_flag]
        split
        · rename_i here
          rwa [← here]
        · rfl
      · exact ShapeTable.known_set inside

/-- A visit leaves the layers that it does not come to their shapes. -/
theorem known_visit_of_ne (wired : network.Wired) (supports : network.Supports state.shapes)
    (differs : id ≠ other) :
    (visit network contract state id).shapes.known other = state.shapes.known other := by
  cases found : network.layer? id with
  | none => rw [visit_of_absent found]
  | some layer => rw [known_visit wired supports found, if_neg differs]

private theorem size_visit (network : Network) (contract : OutputContract) (state : Propagation)
    (id : LayerId) : (visit network contract state id).shapes.size = state.shapes.size := by
  cases found : network.layer? id with
  | none => rw [visit_of_absent found]
  | some layer =>
      rw [visit_of_found found, store]
      split
      · rw [shapes_flag]
      · split
        · rw [shapes_flag]
        · simp only [shapes_flag, Array.size_setIfInBounds]

/-- The visit of a stable layer changes no shape. -/
theorem visit_of_stable (wired : network.Wired) (contract : OutputContract)
    (stable : network.Stable state.shapes id) :
    (visit network contract state id).shapes = state.shapes ∧
      (visit network contract state id).changed = state.changed := by
  cases found : network.layer? id with
  | none => rw [visit_of_absent found]; exact ⟨rfl, rfl⟩
  | some layer =>
      have known := stable layer found
      rw [visit_of_found found, store, shapes_flag, wired.numbered found]
      cases inferred : layer.inferShape state.shapes with
      | none => exact ⟨shapes_flag .., changed_flag ..⟩
      | some shape =>
          simp only
          rw [if_pos (known.trans inferred)]
          exact ⟨shapes_flag .., changed_flag ..⟩

/-- Only the visit of a stable layer leaves the mark of a change off. -/
theorem stable_of_unchanged (wired : network.Wired) (supports : network.Supports state.shapes)
    (unchanged : (visit network contract state id).changed = false) :
    network.Stable state.shapes id := by
  intro layer found
  rw [visit_of_found found, store, shapes_flag, wired.numbered found] at unchanged
  cases inferred : layer.inferShape state.shapes with
  | none => exact supports.known_eq_none found inferred
  | some shape =>
      rw [inferred] at unchanged
      simp only at unchanged
      split at unchanged
      · assumption
      · cases unchanged

/-- What is known stays known. -/
theorem isSome_known_visit (wired : network.Wired) (supports : network.Supports state.shapes)
    (known : (state.shapes.known other).isSome) :
    ((visit network contract state id).shapes.known other).isSome := by
  by_cases same : id = other
  · subst same
    cases found : network.layer? id with
    | none => rwa [visit_of_absent found]
    | some layer =>
        rw [known_visit wired supports found, if_pos rfl]
        exact supports.inferable found known
  · rwa [known_visit_of_ne wired supports same]

theorem supports_visit (wired : network.Wired) (supports : network.Supports state.shapes)
    (id : LayerId) : network.Supports (visit network contract state id).shapes where
  sized := (size_visit network contract state id).trans supports.sized
  inferable := by
    intro other otherLayer otherFound known
    refine Layer.isSome_inferShape_mono
      (fun _ => isSome_known_visit wired supports) ?_
    by_cases same : id = other
    · subst same
      rwa [known_visit wired supports otherFound, if_pos rfl] at known
    · rw [known_visit_of_ne wired supports same] at known
      exact supports.inferable otherFound known

/-- No visit changes the shape of a settled layer. -/
theorem known_visit_of_settled (wired : network.Wired) (supports : network.Supports state.shapes)
    (settled : network.Settled within state.shapes) (isWithin : within other) :
    (visit network contract state id).shapes.known other = state.shapes.known other := by
  by_cases same : id = other
  · subst same
    rw [(visit_of_stable wired contract (settled.stable isWithin)).1]
  · exact known_visit_of_ne wired supports same

private theorem settled_visit (wired : network.Wired) (supports : network.Supports state.shapes)
    (settled : network.Settled within state.shapes) (id : LayerId) :
    network.Settled within (visit network contract state id).shapes :=
  settled.of_alike fun _ => known_visit_of_settled wired supports settled

/-- A visit settles a layer whose sources are settled. -/
theorem settled_visited (wired : network.Wired) (supports : network.Supports state.shapes)
    (settled : network.Settled within state.shapes)
    (needed : ∀ other, network.ShapeNeeds id other → within other) :
    network.Settled (fun other => within other ∨ other = id)
      (visit network contract state id).shapes where
  closed := by
    rintro first second (isWithin | rfl) needs
    · exact .inl (settled.closed isWithin needs)
    · exact .inl (needed second needs)
  stable := by
    rintro other (isWithin | rfl)
    · exact (settled_visit wired supports settled id).stable isWithin
    · intro layer found
      rw [known_visit wired supports found, if_pos rfl]
      refine Layer.inferShape_congr fun source member => ?_
      have isWithin := needed source ⟨layer, found, member⟩
      exact (known_visit_of_settled wired supports settled isWithin).symm

/-! ## Visits one after the other -/

theorem supports_visits (wired : network.Wired) (supports : network.Supports state.shapes)
    (order : List LayerId) :
    network.Supports (order.foldl (visit network contract) state).shapes := by
  induction order generalizing state with
  | nil => exact supports
  | cons id rest inductionHypothesis => exact inductionHypothesis (supports_visit wired supports id)

/-- Layers that are not visited keep their shapes. -/
theorem known_visits_of_notMem (wired : network.Wired) (supports : network.Supports state.shapes)
    (notMem : other ∉ order) :
    (order.foldl (visit network contract) state).shapes.known other = state.shapes.known other := by
  induction order generalizing state with
  | nil => rfl
  | cons id rest inductionHypothesis =>
      rw [List.mem_cons, not_or] at notMem
      obtain ⟨differs, notLater⟩ := notMem
      rw [List.foldl_cons, inductionHypothesis (supports_visit wired supports id) notLater]
      exact known_visit_of_ne wired supports (Ne.symm differs)

/-- Settled layers keep their shapes, whatever is visited. -/
theorem known_visits_of_settled (wired : network.Wired) (supports : network.Supports state.shapes)
    (settled : network.Settled within state.shapes) (isWithin : within other)
    (order : List LayerId) :
    (order.foldl (visit network contract) state).shapes.known other = state.shapes.known other := by
  induction order generalizing state with
  | nil => rfl
  | cons id rest inductionHypothesis =>
      rw [List.foldl_cons, inductionHypothesis (supports_visit wired supports id)
        (settled_visit wired supports settled id),
        known_visit_of_settled wired supports settled isWithin]

/-- Settled layers stay settled, whatever is visited. -/
theorem settled_visits (wired : network.Wired) (supports : network.Supports state.shapes)
    (settled : network.Settled within state.shapes) (order : List LayerId) :
    network.Settled within (order.foldl (visit network contract) state).shapes :=
  settled.of_alike fun _ isWithin => known_visits_of_settled wired supports settled isWithin order

/-- Wherever in the order a layer stands: if its sources are settled, it is stable in the end. -/
theorem stable_of_visited (wired : network.Wired) (supports : network.Supports state.shapes)
    (settled : network.Settled within state.shapes) (member : id ∈ order)
    (needed : ∀ other, network.ShapeNeeds id other → within other) :
    network.Stable (order.foldl (visit network contract) state).shapes id := by
  -- The visits before the layer leave its sources settled, and those behind leave it settled.
  obtain ⟨before, behind, rfl⟩ := List.mem_iff_append.1 member
  rw [List.foldl_append, List.foldl_cons]
  generalize arrived : before.foldl (visit network contract) state = middle
  have supportsThen : network.Supports middle.shapes := arrived ▸ supports_visits wired supports _
  have settledThen : network.Settled within middle.shapes :=
    arrived ▸ settled_visits wired supports settled _
  exact (settled_visits wired (supports_visit wired supportsThen id)
    (settled_visited wired supportsThen settledThen needed) behind).stable (.inr rfl)

private theorem closed_of_grounded
    (closed : ∀ {id other}, within id → network.ShapeNeeds id other → within other)
    {finished : List LayerId}
    (grounded : Grounded (fun id other =>
      within id ∧ network.ShapeNeeds id other ∧ other < network.size) finished)
    (place : within id ∧ (id ∈ finished ∨ network.size ≤ id))
    (needs : network.ShapeNeeds id other) :
    within other ∧ (other ∈ finished ∨ network.size ≤ other) := by
  obtain ⟨isWithin, place⟩ := place
  have member := place.resolve_right (Nat.not_le.2 needs.lt_size)
  refine ⟨closed isWithin needs, (Nat.lt_or_ge other network.size).imp_left fun inside => ?_⟩
  exact grounded.mem_of_needs member ⟨isWithin, needs, inside⟩

/-- One visit each settles the layers of a region that stand behind their sources. -/
theorem settled_of_grounded (wired : network.Wired) (supports : network.Supports state.shapes)
    (closed : ∀ {id other}, within id → network.ShapeNeeds id other → within other)
    {finished : List LayerId}
    (grounded : Grounded (fun id other =>
      within id ∧ network.ShapeNeeds id other ∧ other < network.size) finished) :
    network.Settled (fun id => within id ∧ (id ∈ finished ∨ network.size ≤ id))
      (finished.reverse.foldl (visit network contract) state).shapes := by
  refine ⟨closed_of_grounded closed grounded, ?_⟩
  induction grounded with
  | nil =>
      rintro id ⟨_, outside⟩
      exact .of_size_le (outside.resolve_left List.not_mem_nil)
  | @cons id finished met rest inductionHypothesis =>
      have settled : network.Settled _ _ := ⟨closed_of_grounded closed rest, inductionHypothesis⟩
      rw [List.reverse_cons, List.foldl_append]
      generalize arrived : finished.reverse.foldl (visit network contract) state = middle at settled
      have supportsThen : network.Supports middle.shapes :=
        arrived ▸ supports_visits wired supports _
      rintro other ⟨isWithin, place⟩
      rcases place with member | outside
      · rcases List.mem_cons.1 member with rfl | behind
        · refine (settled_visited wired supportsThen settled fun source needs => ?_).stable
            (.inr rfl)
          refine ⟨closed isWithin needs, ?_⟩
          exact (Nat.lt_or_ge source network.size).imp_left fun inside =>
            met source ⟨isWithin, needs, inside⟩
        · exact (settled_visit wired supportsThen settled id).stable ⟨isWithin, .inl behind⟩
      · exact .of_size_le outside

end Propagation

end NetBlueprint
